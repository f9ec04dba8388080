import TexFormula.Proofs.Macro.Rounds
import TexFormula.Proofs.Token.Respelling

/-! The limit on rounds. An expansion that is called endless is one in which as many rounds as are
allowed replaced calls (`expandRounds_eq_endless_iff`). The round that finds nothing to replace is
counted too. So a list that is finished after the last allowed round is refused all the same, and no
macro is left that could be blamed for it. -/
namespace TexFormula.Macro
open Token Pairing

/-- Whether no token of a list calls a declared macro. -/
def Table.Finished (table : Table) (tokens : List Token) : Prop :=
  ∀ t ∈ tokens, t.isCommand = true → ∀ m, table.get? t.value = some m → m.inFormula = true

/-- A round that replaces calls: there are calls, the round goes through, and what it gives can be
made ready for parsing again. -/
structure Replaces (table : Table) (tokens next : List Token) : Prop where
  unfinished : ¬ table.Finished tokens
  result : ∃ round, expandRound table tokens = .ok round ∧ prepare round.1 = .ok next

/-- What a list has become after a number of rounds that replace calls. -/
inductive AfterRounds (table : Table) : Nat → List Token → List Token → Prop
  | none {tokens} : AfterRounds table 0 tokens tokens
  | more {n tokens next last} (first : Replaces table tokens next)
    (others : AfterRounds table n next last) : AfterRounds table (n + 1) tokens last

/-- Whether a token is the first command of a list that has the name of a macro, declared or defined
in a formula. -/
def FirstNamed (table : Table) (tokens : List Token) (t : Token) : Prop :=
  ∃ before after, tokens = before ++ t :: after ∧ t.kind.command = true ∧ t.value ∈ table.names ∧
    ∀ u ∈ before, u.kind.command = true → u.value ∉ table.names

variable {table : Table} {tokens next last out : List Token} {n : Nat} {name : String} {e : Error}

theorem finished_iff : table.Finished tokens ↔ ∀ t ∈ tokens, table.callee? t = none :=
  forall₂_congr fun _ _ => callee?_eq_none_iff.symm

/-! ### Causes of failure -/

/-- Whether an error says that an expansion has no end. -/
def Endless (e : Error) : Prop :=
  ∃ name, e = .failedExpansion name .endless

/-- Preparation fails for delimiters only. -/
theorem not_endless_of_prepare (failed : prepare tokens = .error e) : ¬ Endless e := by
  obtain ⟨bracket, position, excerpt, rfl⟩ := mismatched_of_prepare failed
  exact nofun

theorem not_endless_of_substitute {arguments : List (List Token)} {body : List Token}
    (failed : substitute name arguments body = .error e) : ¬ Endless e := by
  induction body with
  | nil => cases failed
  | cons t rest ih =>
    rcases bind_eq_error_iff.mp failed with here | ⟨_, _, failed⟩
    · unfold substituteToken at here
      grind [Endless]
    · rcases bind_eq_error_iff.mp failed with later | ⟨_, _, done⟩
      · exact ih later
      · cases done

/-- A round fails for a call that cannot be replaced. -/
theorem not_endless_of_expandRound (failed : expandRound table tokens = .error e) :
    ¬ Endless e := by
  induction tokens using expandRound.induct table with
  | case1 => rw [expandRound] at failed; cases failed
  | case2 t rest uncalled ih =>
    rw [expandRound, uncalled] at failed
    rcases bind_eq_error_iff.mp failed with later | ⟨_, _, done⟩
    · exact ih later
    · cases done
  | case3 t rest m called taken =>
    rename_i ih
    rw [expandRound, called] at failed
    rcases bind_eq_error_iff.mp failed with collected | ⟨_, _, failed⟩
    · unfold collectArguments at collected
      grind [Endless]
    rcases bind_eq_error_iff.mp failed with substituted | ⟨_, _, failed⟩
    · exact not_endless_of_substitute substituted
    rcases bind_eq_error_iff.mp failed with later | ⟨_, _, done⟩
    · exact ih later
    · cases done

/-! ### Rounds -/

theorem replaced_of_unfinished {round : List Token × Bool} (unfinished : ¬ table.Finished tokens)
    (ran : expandRound table tokens = .ok round) : round.2 = true := by
  by_contra quiet
  exact unfinished (finished_iff.mpr (uncalled_of_expandRound ran (by simpa using quiet)))

theorem expandRounds_of_replaces (first : Replaces table tokens next) (n : Nat) :
    expandRounds table (n + 1) tokens = expandRounds table n next := by
  obtain ⟨unfinished, round, ran, prepared⟩ := first
  have called : round.2 = true := replaced_of_unfinished unfinished ran
  simp only [expandRounds, ran, prepared, called, bind, Except.bind, if_true]

/-- What a round can do: find nothing to replace, replace calls, or fail for another cause than the
number of rounds. -/
theorem round_cases (table : Table) (tokens : List Token) :
    table.Finished tokens ∨ (∃ next, Replaces table tokens next) ∨
      ∃ e, ¬ Endless e ∧ ∀ n, expandRounds table (n + 1) tokens = .error e := by
  by_cases finished : table.Finished tokens
  · exact .inl finished
  refine .inr ?_
  cases ran : expandRound table tokens with
  | error e =>
    refine .inr ⟨e, not_endless_of_expandRound ran, fun n => ?_⟩
    rw [expandRounds, ran]
    rfl
  | ok round =>
    cases prepared : prepare round.1 with
    | ok next => exact .inl ⟨next, finished, round, ran, prepared⟩
    | error e =>
      have called : round.2 = true := replaced_of_unfinished finished ran
      refine .inr ⟨e, not_endless_of_prepare prepared, fun n => ?_⟩
      simp only [expandRounds, ran, prepared, called, bind, Except.bind, if_true]

theorem Replaces.unique {other : List Token} (first : Replaces table tokens next)
    (second : Replaces table tokens other) : next = other := by
  obtain ⟨_, round, ran, prepared⟩ := first
  obtain ⟨_, round', ran', prepared'⟩ := second
  cases ran.symm.trans ran'
  exact Except.ok.inj (prepared.symm.trans prepared')

/-- There is one list only that a list becomes in a number of rounds. -/
theorem AfterRounds.unique {other : List Token} (rounds : AfterRounds table n tokens last)
    (others : AfterRounds table n tokens other) : last = other := by
  induction rounds with
  | none => cases others; rfl
  | more first _ ih =>
    cases others with
    | more second others => exact ih (first.unique second ▸ others)

/-- Rounds come to an end with a finished list that fewer rounds than are allowed lead to. -/
theorem expandRounds_eq_ok_iff :
    expandRounds table n tokens = .ok out ↔
      ∃ k < n, AfterRounds table k tokens out ∧ table.Finished out := by
  induction n generalizing tokens with
  | zero => simp [expandRounds]
  | succ n ih =>
    constructor
    · intro done
      rcases round_cases table tokens with finished | ⟨next, first⟩ | ⟨e, _, failed⟩
      · rw [expandRounds_of_uncalled n (finished_iff.mp finished)] at done
        cases done
        exact ⟨0, Nat.succ_pos n, .none, finished⟩
      · rw [expandRounds_of_replaces first] at done
        obtain ⟨k, few, others, finished⟩ := ih.mp done
        exact ⟨k + 1, Nat.succ_lt_succ few, .more first others, finished⟩
      · cases (failed n).symm.trans done
    · rintro ⟨k, few, rounds, finished⟩
      cases rounds with
      | none => exact expandRounds_of_uncalled n (finished_iff.mp finished)
      | @more k _ next _ first others =>
        rw [expandRounds_of_replaces first]
        exact ih.mpr ⟨k, Nat.lt_of_succ_lt_succ few, others, finished⟩

/-- Rounds are called endless exactly if all that are allowed replaced calls. -/
theorem expandRounds_eq_endless_iff :
    expandRounds table n tokens = .error (.failedExpansion name .endless) ↔
      ∃ last, AfterRounds table n tokens last ∧ firstCall table last = name := by
  induction n generalizing tokens with
  | zero =>
    constructor
    · intro failed
      cases failed
      exact ⟨tokens, .none, rfl⟩
    · rintro ⟨last, rounds, rfl⟩
      cases rounds
      rfl
  | succ n ih =>
    constructor
    · intro failed
      rcases round_cases table tokens with finished | ⟨next, first⟩ | ⟨e, other, failed'⟩
      · rw [expandRounds_of_uncalled n (finished_iff.mp finished)] at failed
        cases failed
      · rw [expandRounds_of_replaces first] at failed
        obtain ⟨last, others, named⟩ := ih.mp failed
        exact ⟨last, .more first others, named⟩
      · cases (failed' n).symm.trans failed
        exact absurd ⟨name, rfl⟩ other
    · rintro ⟨last, rounds, named⟩
      cases rounds with
      | more first others =>
        rw [expandRounds_of_replaces first]
        exact ih.mpr ⟨last, others, named⟩

/-! ### The macro that is blamed -/

theorem firstNamed_iff {t : Token} :
    FirstNamed table tokens t ↔
      tokens.find? (fun u => u.kind.command && table.contains u.value) = some t := by
  simp only [List.find?_eq_some_iff_append, Bool.not_eq_true', Bool.eq_false_iff, ne_eq,
    Bool.and_eq_true, Registry.contains_iff, not_and]
  constructor
  · rintro ⟨before, after, split, command, known, earlier⟩
    exact ⟨⟨command, known⟩, before, after, split, earlier⟩
  · rintro ⟨⟨command, known⟩, before, after, split, earlier⟩
    exact ⟨before, after, split, command, known, earlier⟩

/-- The name in the error is that of the first command with the name of a macro. Without one it is
empty. -/
theorem firstCall_eq_iff :
    firstCall table tokens = name ↔
      (∃ t, FirstNamed table tokens t ∧ t.value = name) ∨
        (¬ ∃ t, FirstNamed table tokens t) ∧ name = "" := by
  simp only [firstNamed_iff, firstCall]
  cases tokens.find? (fun u => u.kind.command && table.contains u.value) with
  | none => simp [eq_comm]
  | some t => simp

/-! ### Main results -/

/-- An expansion gives a list exactly if the list is finished and fewer rounds than are allowed lead
to it. It is called endless exactly if as many rounds as are allowed replaced calls, and the name in
the error is that of the first command with the name of a macro that is there after them. So if that
command calls a declared macro, the name is one of a declared macro that is still called. -/
theorem expand_endless_iff_rounds_exhausted (table : Table) (tokens : List Token) :
    (∀ out, expand table tokens = .ok out ↔
      ∃ n < maxDepth, AfterRounds table n tokens out ∧ table.Finished out) ∧
    (∀ name, expand table tokens = .error (.failedExpansion name .endless) ↔
      ∃ last, AfterRounds table maxDepth tokens last ∧
        ((∃ t, FirstNamed table last t ∧ t.value = name) ∨
          (¬ ∃ t, FirstNamed table last t) ∧ name = "")) ∧
    ∀ name last t m, expand table tokens = .error (.failedExpansion name .endless) →
      AfterRounds table maxDepth tokens last → FirstNamed table last t → t.isCommand = true →
      table.get? t.value = some m → m.inFormula = false →
      ∃ u ∈ last, u.isCommand = true ∧ u.value = name ∧
        ∃ m, table.get? name = some m ∧ m.inFormula = false := by
  refine ⟨fun out => ?_, fun name => ?_, ?_⟩
  · rw [expand_eq_expandRounds]
    exact expandRounds_eq_ok_iff
  · rw [expand_eq_expandRounds, expandRounds_eq_endless_iff]
    simp only [firstCall_eq_iff]
  · intro name last t m failed rounds first command found declared
    rw [expand_eq_expandRounds, expandRounds_eq_endless_iff] at failed
    obtain ⟨other, others, rfl⟩ := failed
    cases rounds.unique others
    rw [firstCall_eq_iff.mpr (.inl ⟨t, first, rfl⟩)]
    obtain ⟨before, after, rfl, _⟩ := first
    exact ⟨t, List.mem_append_right _ List.mem_cons_self, command, rfl, m, found, declared⟩

/-- A macro that doubles its argument, and is its own argument, is still called after all rounds. -/
theorem expand_endless_iff_rounds_exhausted_doubling :
    ∃ d : Token, FirstNamed (declareAll [("d", "#1#1")]) [d, d] d ∧
      AfterRounds (declareAll [("d", "#1#1")]) maxDepth [d, d] [d, d] ∧
      expand (declareAll [("d", "#1#1")]) [d, d] = .error (.failedExpansion "d" .endless) ∧
      ∃ u ∈ [d, d], u.isCommand = true ∧ u.value = "d" ∧
        ∃ m, (declareAll [("d", "#1#1")]).get? "d" = some m ∧ m.inFormula = false := by
  let d : Token := { kind := { command := true }, value := "d" }
  let m : Macro :=
    { body := List.replicate 2 { kind := { argument := true }, value := "1" }, arity := 1 }
  have found : (declareAll [("d", "#1#1")]).get? "d" = some m := by cbv
  have unfinished : ¬ (declareAll [("d", "#1#1")]).Finished [d, d] := fun finished =>
    absurd (finished d List.mem_cons_self rfl m found) (by decide)
  have again : Replaces (declareAll [("d", "#1#1")]) [d, d] [d, d] :=
    ⟨unfinished, ([d, d], true), by cbv, by cbv⟩
  have rounds : ∀ n, AfterRounds (declareAll [("d", "#1#1")]) n [d, d] [d, d] := by
    intro n
    induction n with
    | zero => exact .none
    | succ n ih => exact .more again ih
  have first : FirstNamed (declareAll [("d", "#1#1")]) [d, d] d :=
    ⟨[], [d], rfl, rfl, Registry.mem_names_iff.mpr ⟨m, found⟩, List.forall_mem_nil _⟩
  obtain ⟨_, endless, blamed⟩ :=
    expand_endless_iff_rounds_exhausted (declareAll [("d", "#1#1")]) [d, d]
  have failed := (endless "d").mpr ⟨[d, d], rounds maxDepth, .inl ⟨d, first, rfl⟩⟩
  exact ⟨d, first, rounds maxDepth, failed,
    blamed "d" [d, d] d m failed (rounds maxDepth) first rfl found rfl⟩

/-! ### Calls inside each other -/

namespace Nest

/-- A macro that stands for its argument. -/
def identity : Table :=
  declareAll [("a", "#1")]

/-- What is inside all calls. -/
def letter : Token :=
  { kind := { letter := true }, value := "x" }

def call : Token :=
  { kind := { command := true }, value := "a" }

def opener : Token :=
  { kind := { opens := true, curly := true }, value := "\x7b" }

def closer : Token :=
  { kind := { closes := true, curly := true }, value := "\x7d" }

/-- Calls of the macro, each of them the argument of the one before. -/
def calls : Nat → List Token
  | 0 => [letter]
  | n + 1 => call :: opener :: (calls n ++ [closer])

/-- The source of the calls. -/
def source : Nat → List Char
  | 0 => ['x']
  | n + 1 => '\\' :: 'a' :: '\x7b' :: (source n ++ ['\x7d'])

theorem lexChars_source (n : Nat) (rest : List Char) :
    lexChars (source n ++ rest) = calls n ++ lexChars rest := by
  induction n generalizing rest with
  | zero => exact lexChars_of_nextFrom rfl
  | succ n ih =>
    have command : nextFrom '\\' ('a' :: '\x7b' :: (source n ++ '\x7d' :: rest)) =
        (call, '\x7b' :: (source n ++ '\x7d' :: rest)) := rfl
    have opens : nextFrom '\x7b' (source n ++ '\x7d' :: rest) =
        (opener, source n ++ '\x7d' :: rest) := rfl
    have closes : nextFrom '\x7d' rest = (closer, rest) := rfl
    simp only [source, calls, List.cons_append, List.append_assoc, List.nil_append,
      lexChars_of_nextFrom command, lexChars_of_nextFrom opens, ih, lexChars_of_nextFrom closes]

theorem forall_calls : ∀ t ∈ calls n, t.Fresh ∧ t.Settled := by
  induction n with
  | zero => exact List.forall_mem_singleton.mpr ⟨⟨⟨by decide, by decide⟩, rfl⟩, by decide⟩
  | succ n ih =>
    refine List.forall_mem_cons.mpr ⟨⟨⟨⟨by decide, by decide⟩, rfl⟩, by decide⟩, ?_⟩
    refine List.forall_mem_cons.mpr ⟨⟨⟨⟨by decide, by decide⟩, rfl⟩, by decide⟩, ?_⟩
    exact List.forall_mem_append.mpr
      ⟨ih, List.forall_mem_singleton.mpr ⟨⟨⟨by decide, by decide⟩, rfl⟩, by decide⟩⟩

theorem nested_calls {mark : Token → Option Mark} (plain : mark letter = none ∧ mark call = none)
    (opens : mark opener = some (.opens .curly)) (closes : mark closer = some (.closes .curly)) :
    Nested (wordOf mark (calls n)) := by
  induction n with
  | zero =>
    rw [calls, wordOf_cons_of_none plain.1]
    exact .nil
  | succ n ih =>
    rw [calls, wordOf_cons_of_none plain.2, wordOf_cons_of_some opens, wordOf_append,
      wordOf_cons_of_some closes]
    exact .group _ ih .nil

theorem curly_calls : Nested (wordOf Family.curly.mark? (calls n)) :=
  nested_calls ⟨rfl, rfl⟩ rfl rfl

/-- Nested calls can be made ready for parsing. -/
theorem prepare_calls (n : Nat) :
    ∃ tokens, prepare (calls n) = .ok tokens ∧ tokens.map unpaired = calls n ∧ Paired tokens := by
  have fresh : ∀ t ∈ calls n, t.Fresh := fun t member => (forall_calls t member).1
  have settled : ∀ t ∈ calls n, t.Settled := fun t member => (forall_calls t member).2
  have coherent : ∀ t ∈ calls n, t.kind.Coherent := fun t member => (fresh t member).1
  have alone := map_unpaired_of_fresh fresh
  have collapsed := collapsed_of_settled settled
  obtain ⟨tokens, done⟩ := (prepare_ok_iff_nested coherent).mpr (by
    rw [unlinked_of_settled alone settled]
    rw [alone] at collapsed
    exact ⟨curly_calls, _, collapsed, nested_calls ⟨rfl, rfl⟩ rfl rfl⟩)
  exact ⟨tokens, done, (map_unpaired_of_prepare settled done).trans alone,
    paired_of_prepare coherent done⟩

theorem braces : Braces opener closer :=
  ⟨⟨rfl, rfl⟩, ⟨rfl, rfl, rfl⟩, ⟨rfl, rfl⟩, ⟨rfl, rfl⟩, ⟨rfl, rfl⟩⟩

/-- The macro as it is declared. -/
def body : Macro :=
  { body := [{ kind := { argument := true }, value := "1" }], arity := 1 }

theorem callee?_call : identity.callee? call = some body := by
  cbv

/-- A round takes the outer call away. -/
theorem replaces_calls (same : tokens.map unpaired = calls (n + 1)) (paired : Paired tokens) :
    ∃ next, Replaces identity tokens next ∧ next.map unpaired = calls n ∧ Paired next := by
  obtain ⟨next, prepared, same', paired'⟩ := prepare_calls n
  obtain ⟨outer, behind, rfl, command, group⟩ := List.map_eq_cons_iff.mp same
  obtain ⟨left, rest, rfl, opens, content⟩ := List.map_eq_cons_iff.mp group
  obtain ⟨inner, last, rfl, inside, ends⟩ := List.map_eq_append_iff.mp content
  obtain ⟨right, none, rfl, closes, empty⟩ := List.map_eq_cons_iff.mp ends
  cases List.map_eq_nil_iff.mp empty
  have called : identity.callee? outer = some body := by
    rw [← callee?_call, ← command]
    rfl
  have group : Braces left right := by
    rw [← braces_unpaired, opens, closes]
    exact braces
  have nested : Nested (wordOf Family.curly.mark? inner) := by
    have word : wordOf Family.curly.mark? inner = wordOf Family.curly.mark? (calls n) := by
      rw [← inside, wordOf, wordOf, List.filterMap_map]
      rfl
    rw [word]
    exact curly_calls
  have takes : Takes body.arity (left :: (inner ++ [right])) [inner] [] :=
    .group group nested .done
  obtain ⟨collected, cut⟩ :=
    collectArguments_of_takes outer.value rfl takes (@Paired.suffix _ [outer] paired)
  have filled : body.expandCall outer.value [inner] = .ok (calls n) := by
    have number : Decimal.readCount? "1" = some 1 := by cbv
    simp only [expandCall, body, substitute, substituteToken, number, if_true, inside,
      List.getElem?_cons_zero, bind, Except.bind, pure, Except.pure, List.append_nil]
  have ran : expandRound identity (outer :: left :: (inner ++ [right])) = .ok (calls n, true) := by
    rw [expandRound, called]
    simp only [collected, cut, bind, Except.bind, filled]
    rw [expandRound]
    simp [pure, Except.pure]
  have unfinished : ¬ identity.Finished (outer :: left :: (inner ++ [right])) := by
    intro finished
    have quiet := finished_iff.mp finished outer List.mem_cons_self
    cases quiet.symm.trans called
  exact ⟨next, ⟨unfinished, _, ran, prepared⟩, same', paired'⟩

/-- As many rounds as there are calls lead to the letter. -/
theorem afterRounds_calls (same : tokens.map unpaired = calls n) (paired : Paired tokens) :
    ∃ last, AfterRounds identity n tokens last ∧ last.map unpaired = [letter] := by
  induction n generalizing tokens with
  | zero => exact ⟨tokens, .none, same⟩
  | succ n ih =>
    obtain ⟨next, first, same, paired⟩ := replaces_calls same paired
    obtain ⟨last, others, result⟩ := ih same paired
    exact ⟨last, .more first others, result⟩

end Nest

/-- As many calls inside each other as there may be rounds are all replaced, and the expansion is
called endless, with a name that no macro has. -/
theorem finished_expansion_refused :
    ∃ tokens last, tokenize (String.ofList (Nest.source maxDepth)) = .ok tokens ∧
      AfterRounds Nest.identity maxDepth tokens last ∧ Nest.identity.Finished last ∧
      expand Nest.identity tokens = .error (.failedExpansion "" .endless) ∧
      "" ∉ Nest.identity.names := by
  obtain ⟨tokens, prepared, same, paired⟩ := Nest.prepare_calls maxDepth
  obtain ⟨last, rounds, result⟩ := Nest.afterRounds_calls same paired
  have read : tokenize (String.ofList (Nest.source maxDepth)) = .ok tokens := by
    have characters := Nest.lexChars_source maxDepth []
    rw [List.append_nil, lexChars, List.append_nil] at characters
    rw [tokenize, lex, String.toList_ofList, characters, prepared]
  have plain : ∀ t ∈ last, t.kind.command = false := by
    intro t member
    have here := List.mem_map_of_mem (f := unpaired) member
    rw [result] at here
    exact congrArg (·.kind.command) (List.mem_singleton.mp here)
  have finished : Nest.identity.Finished last := by
    intro t member command
    simp [isCommand, plain t member] at command
  have nameless : firstCall Nest.identity last = "" := by
    refine firstCall_eq_iff.mpr (.inr ⟨?_, rfl⟩)
    rintro ⟨t, before, after, rfl, command, _⟩
    rw [plain t (List.mem_append_right _ List.mem_cons_self)] at command
    cases command
  have failed : expand Nest.identity tokens = .error (.failedExpansion "" .endless) := by
    rw [expand_eq_expandRounds]
    exact expandRounds_eq_endless_iff.mpr ⟨last, rounds, nameless⟩
  have names : Nest.identity.names = ["a"] := by cbv
  exact ⟨tokens, last, read, rounds, finished, failed, by rw [names]; decide⟩

end TexFormula.Macro
