import Mathlib
import TexFormula.Macro.Declaration
import TexFormula.Proofs.Expr.Popping
import TexFormula.Proofs.Token.Preparation

/-! What a round reads. A round cuts its list into segments: a token that is copied, or a call with
the arguments that it takes and the blanks before them. The segments follow each other without a gap
and without overlapping, and what a round gives is what becomes of them, one after the other
(`exists_segments`). -/
namespace TexFormula.Macro
open Token

/-- An expression that a call takes as an argument, with the blanks that are skipped before it. -/
structure Taken where
  gap : List Token
  expr : Expr

/-- The tokens of an argument and of the blanks before it. -/
def Taken.tokens (a : Taken) : List Token :=
  a.gap ++ a.expr.tokens

/-- Whether an argument has only blanks before it and is none itself. -/
def Taken.Proper (a : Taken) : Prop :=
  (∀ t ∈ a.gap, t.isBlank = true) ∧ a.expr.isWhitespace = false

/-- The arguments of a call are those it takes, in order. The preset of an optional argument can
come before them. -/
def Gives (m : Macro) (taken : List Taken) (arguments : List (List Token)) : Prop :=
  arguments.length = m.arity ∧
    ∃ presets, arguments = presets ++ taken.map (·.expr.argument) ∧
      (presets = [] ∨ ∃ preset ∈ m.optional, presets = [preset])

/-- A part of a list that a round reads in one step. -/
inductive Segment where
  | copied (t : Token)
  | call (t : Token) (taken : List Taken)

/-- The tokens of a segment. -/
def Segment.source : Segment → List Token
  | copied t => [t]
  | call t taken => t :: taken.flatMap Taken.tokens

/-- What a round makes of a segment. -/
inductive Segment.Becomes (table : Table) : Segment → List Token → Prop
  | copied {t} (uncalled : table.callee? t = none) : Becomes table (.copied t) [t.unpaired]
  | call {t m taken arguments out} (called : table.callee? t = some m)
    (proper : ∀ a ∈ taken, a.Proper) (gives : Gives m taken arguments)
    (expanded : m.expandCall t.value arguments = .ok out) : Becomes table (.call t taken) out

variable {m : Macro} {name : String} {q rest : Queue} {e : Expr} {n : Nat} {table : Table}
  {tokens : List Token} {arguments : List (List Token)} {round : List Token × Bool}

/-! ### Arguments -/

/-- An argument that is popped has only blanks before it. -/
theorem exists_taken (spaced : q.Spaced) (popped : q.popArgument = (some e, rest)) :
    ∃ a : Taken, a.Proper ∧ a.expr = e ∧ q.spelled = a.tokens ++ rest.spelled ∧ rest.Spaced := by
  obtain ⟨skipped, rfl, blank, found⟩ := Queue.split_popWhile popped
  refine ⟨⟨skipped.spelled, e⟩, ⟨?_, found e rfl⟩, rfl, by simp [Taken.tokens], ?_⟩
  · intro t member
    obtain ⟨d, inside, member⟩ := List.mem_flatMap.mp member
    exact spaced d (List.mem_append_left _ inside) (blank d inside) t member
  · exact fun d member => spaced d (List.mem_append_right _ (List.mem_cons_of_mem _ member))

/-- Where as many arguments are taken as are asked for, they and the rest make up the queue. -/
theorem exists_taken_takeArguments (spaced : q.Spaced)
    (enough : (takeArguments n q).1.length = n) :
    ∃ taken : List Taken, (∀ a ∈ taken, a.Proper) ∧
      (takeArguments n q).1 = taken.map (·.expr.argument) ∧
      q.spelled = taken.flatMap Taken.tokens ++ (takeArguments n q).2.spelled := by
  induction n generalizing q with
  | zero => exact ⟨[], List.forall_mem_nil _, rfl, rfl⟩
  | succ n ih =>
    unfold takeArguments at enough ⊢
    split at enough
    case h_1 => cases enough
    case h_2 e rest popped =>
      split at enough
      case isTrue => cases enough
      case isFalse inside =>
        obtain ⟨a, proper, rfl, same, spaced⟩ := exists_taken spaced popped
        obtain ⟨taken, others, arguments, later⟩ := ih spaced (Nat.succ.inj enough)
        simp only [if_neg inside]
        refine ⟨a :: taken, List.forall_mem_cons.mpr ⟨proper, others⟩, ?_, ?_⟩
        · rw [arguments, List.map_cons]
        · rw [same, later, List.flatMap_cons, List.append_assoc]

theorem length_takeArguments_le (n : Nat) (q : Queue) : (takeArguments n q).1.length ≤ n := by
  induction n generalizing q with
  | zero => exact Nat.le_refl _
  | succ n ih =>
    unfold takeArguments
    split
    · exact Nat.zero_le _
    · split
      · exact Nat.zero_le _
      · exact Nat.succ_le_succ (ih _)

/-- An optional argument is an expression in brackets behind the call, or the preset. -/
theorem exists_taken_takeOptional (m : Macro) (spaced : q.Spaced) :
    ∃ (taken : List Taken) (presets : List (List Token)), (∀ a ∈ taken, a.Proper) ∧
      (m.takeOptional q).1 = presets ++ taken.map (·.expr.argument) ∧
      (presets = [] ∨ ∃ preset ∈ m.optional, presets = [preset]) ∧
      (m.takeOptional q).1.length ≤ m.arity ∧
      q.spelled = taken.flatMap Taken.tokens ++ (m.takeOptional q).2.spelled ∧
      (m.takeOptional q).2.Spaced := by
  unfold takeOptional
  split
  case h_1 => exact ⟨[], [], List.forall_mem_nil _, rfl, .inl rfl, Nat.zero_le _, rfl, spaced⟩
  case h_2 preset given =>
    split
    case isTrue =>
      exact ⟨[], [], List.forall_mem_nil _, rfl, .inl rfl, Nat.zero_le _, rfl, spaced⟩
    case isFalse some =>
      have room : 1 ≤ m.arity := Nat.one_le_iff_ne_zero.mpr some
      split
      case h_1 e rest popped =>
        rcases Queue.popOptions_cases popped with ⟨_, ⟨⟩, bracketed, found⟩ | ⟨⟨⟩, _⟩
        obtain ⟨a, proper, rfl, same, behind⟩ := exists_taken spaced found
        refine ⟨[a], [], List.forall_mem_singleton.mpr proper, ?_, .inl rfl, room, ?_, behind⟩
        · simp [Expr.argument, bracketed]
        · simpa using same
      case h_2 rest popped =>
        rcases Queue.popOptions_cases popped with ⟨_, ⟨⟩, _⟩ | ⟨_, rfl⟩
        exact ⟨[], [preset], List.forall_mem_nil _, rfl, .inr ⟨preset, given, rfl⟩, room, rfl,
          spaced⟩

/-- The arguments of a call and what is left behind them make up what follows the call. -/
theorem exists_taken_collectArguments (spaced : q.Spaced)
    (collected : (m.collectArguments name q).1 = .ok arguments) :
    ∃ taken : List Taken, (∀ a ∈ taken, a.Proper) ∧ Gives m taken arguments ∧
      q.spelled = taken.flatMap Taken.tokens ++ (m.collectArguments name q).2.spelled := by
  obtain ⟨front, presets, proper, first, preset, room, same, behind⟩ :=
    exists_taken_takeOptional m spaced
  have few := length_takeArguments_le (m.arity - (m.takeOptional q).1.length) (m.takeOptional q).2
  unfold collectArguments at collected ⊢
  simp only at collected ⊢
  split at collected
  case isTrue => cases collected
  case isFalse enough =>
    have total := enough
    rw [List.length_append] at total
    cases collected
    obtain ⟨others, proper', arguments, later⟩ := exists_taken_takeArguments behind
      (n := m.arity - (m.takeOptional q).1.length) (by omega)
    have each := List.forall_mem_append.mpr ⟨proper, proper'⟩
    refine ⟨front ++ others, each, ⟨?_, presets, ?_, preset⟩, ?_⟩
    · rw [List.length_append]
      omega
    · rw [arguments, first, List.map_append, List.append_assoc]
    · rw [if_neg enough, same, later, List.flatMap_append, List.append_assoc]

/-! ### Rounds -/

/-- A round that goes through reads its list in segments. -/
theorem exists_segments (done : expandRound table tokens = .ok round) :
    ∃ segments : List (Segment × List Token), tokens = segments.flatMap (·.1.source) ∧
      round.1 = segments.flatMap (·.2) ∧ ∀ s ∈ segments, s.1.Becomes table s.2 := by
  induction tokens using expandRound.induct table generalizing round with
  | case1 =>
    rw [expandRound] at done
    cases done
    exact ⟨[], rfl, rfl, List.forall_mem_nil _⟩
  | case2 t rest uncalled ih =>
    simp only [expandRound, uncalled, bind_eq_ok_iff] at done
    obtain ⟨others, ran, result⟩ := done
    cases result
    obtain ⟨segments, rfl, later, each⟩ := ih ran
    refine ⟨(.copied t, [t.unpaired]) :: segments, rfl, by rw [later]; rfl, ?_⟩
    exact List.forall_mem_cons.mpr ⟨.copied uncalled, each⟩
  | case3 t rest m called taken =>
    rename_i ih
    simp only [expandRound, called, bind_eq_ok_iff] at done
    obtain ⟨arguments, collected, expanded, substituted, others, ran, result⟩ := done
    cases result
    obtain ⟨taken, proper, gives, same⟩ :=
      exists_taken_collectArguments (Queue.spaced_ofTokens rest) collected
    rw [Queue.spelled_ofTokens] at same
    have behind : rest.drop
        (rest.length - (m.collectArguments t.value (Queue.ofTokens rest)).2.weight) =
        (m.collectArguments t.value (Queue.ofTokens rest)).2.spelled := by
      rw [← Queue.length_spelled]
      exact (List.suffix_iff_eq_drop.mp ⟨_, same.symm⟩).symm
    obtain ⟨segments, source, later, each⟩ := ih ran
    refine ⟨(.call t taken, expanded) :: segments, ?_, by rw [later]; rfl, ?_⟩
    · rw [List.flatMap_cons, ← source, behind, Segment.source, List.cons_append, ← same]
    · exact List.forall_mem_cons.mpr ⟨.call called proper gives substituted, each⟩

/-! ### Main results -/

/-- No token is lost or repeated between calls. The expressions of a list spell the list again.
Whatever is taken off their queue, skipped in it or opened, the queue spells an end of the list, as
long as its weight, and an expression that is opened leaves what follows its first token. So a round
that goes through copies a token, or reads a call with its arguments and the blanks before them, and
these segments make up the list. -/
theorem no_token_lost_or_repeated :
    (∀ tokens : List Token, (Queue.ofTokens tokens).spelled = tokens ∧
      ∀ e ∈ Queue.ofTokens tokens, e.tokens ≠ []) ∧
    (∀ (tokens : List Token) (steps : List Queue.Shortening),
      (Queue.runAll steps (Queue.ofTokens tokens)).spelled <:+ tokens ∧
        (Queue.runAll steps (Queue.ofTokens tokens)).spelled.length =
          (Queue.runAll steps (Queue.ofTokens tokens)).weight) ∧
    (∀ (way : Queue.Taking) (q rest : Queue) (e : Expr), way.run q = (some e, rest) →
      ∃ skipped : Queue, q = skipped ++ e :: rest ∧ (∀ d ∈ skipped, way.Skips d) ∧ ¬ way.Skips e ∧
        q.spelled = skipped.spelled ++ e.first :: (Queue.splice e.rest rest).spelled) ∧
    ∀ (table : Table) (tokens : List Token) (round : List Token × Bool),
      expandRound table tokens = .ok round →
      ∃ segments : List (Segment × List Token), tokens = segments.flatMap (·.1.source) ∧
        round.1 = segments.flatMap (·.2) ∧ ∀ s ∈ segments, s.1.Becomes table s.2 := by
  refine ⟨fun tokens => ⟨Queue.spelled_ofTokens tokens, fun e _ => List.cons_ne_nil _ _⟩,
    fun tokens steps => ⟨?_, Queue.length_spelled _⟩, fun way q rest e => Queue.spelled_reopen,
    fun table tokens round => exists_segments⟩
  have left := Queue.spelled_runAll steps (Queue.ofTokens tokens)
  rwa [Queue.spelled_ofTokens] at left

/-- The blank before the argument of a call goes with the call, and so does the group. -/
theorem no_token_lost_or_repeated_group :
    ∃ tokens e rest round, Token.tokenize "\\f \x7bx\x7dy" = .ok tokens ∧
      Queue.Taking.argument.run (Queue.ofTokens tokens.tail) = (some e, rest) ∧
      expandRound (declareAll [("f", "#1")]) tokens = .ok round ∧
      (∃ skipped : Queue, Queue.ofTokens tokens.tail = skipped ++ e :: rest ∧
        (∀ d ∈ skipped, Queue.Taking.argument.Skips d) ∧ ¬ Queue.Taking.argument.Skips e ∧
        (Queue.ofTokens tokens.tail).spelled =
          skipped.spelled ++ e.first :: (Queue.splice e.rest rest).spelled) ∧
      ∃ segments : List (Segment × List Token), tokens = segments.flatMap (·.1.source) ∧
        round.1 = segments.flatMap (·.2) ∧
        ∀ s ∈ segments, s.1.Becomes (declareAll [("f", "#1")]) s.2 := by
  obtain ⟨_, _, opened, rounds⟩ := no_token_lost_or_repeated
  have result : ∀ tokens e rest round,
      Queue.Taking.argument.run (Queue.ofTokens tokens.tail) = (some e, rest) →
      expandRound (declareAll [("f", "#1")]) tokens = .ok round → _ :=
    fun tokens e rest round taken ran => And.intro (opened .argument _ rest e taken)
      (rounds _ tokens round ran)
  exact ⟨_, _, _, _, by cbv, by cbv, by cbv, result _ _ _ _ (by cbv) (by cbv)⟩

end TexFormula.Macro
