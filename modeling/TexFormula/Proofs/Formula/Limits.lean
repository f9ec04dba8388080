import TexFormula.Proofs.Expr.Positions
import TexFormula.Proofs.Formula.Machine
import TexFormula.Proofs.Token.Acceptance

/-! Limits of reading. Macros that formulas define may call themselves and each other in any way, so
nothing about them bounds how much is read. What does is counted by the machine: a call is only
expanded while there are levels and calls left (`Within.next`). Within these limits the machine
comes to the end of every token list, on the level on which it started, and no list that it cuts is
left on the way (`reading_ends_within_limits`). -/
namespace TexFormula

/-- The positions that are used while a token list is cut into expressions, while these are taken
apart, and while arguments and the names of environments are taken out of it are all in the list. -/
structure Queue.InBounds (list : List Token) : Prop where
  /-- All expressions are cut, from the start of the list to its end. -/
  cut : cut? list 0 = some ((ofTokens list).map piece)
  content : ∀ e ∈ ofTokens list, content? (piece e) = some e.inner
  first : ∀ e ∈ ofTokens list, e.tokens[0]? = some e.first
  /-- What is put back in front of a queue when a square bracket is no argument. -/
  behind : ∀ e ∈ ofTokens list, slice? e.tokens 1 e.tokens.length = some e.rest
  /-- The position behind the arguments of a call is found by counting what is left of the queue
  from the end of the list. -/
  arguments : ∀ name (m : Macro), (m.collectArguments name (ofTokens list)).2.weight ≤ list.length
  /-- What is in braces is the name of an environment. -/
  name : ∀ braced, Token.pairStrictly .curly (list.map Token.unpaired) = .ok braced →
    ∀ before brace after, braced = before ++ brace :: after → Pairing.Family.curly.Opens brace →
      slice? braced (before.length + 1) (before.length + brace.offset.toNat) =
        some (after.take (brace.offset.toNat - 1))

/-- No list has a position that is used outside it. -/
theorem Queue.inBounds (list : List Token) : InBounds list where
  cut := cut?_zero list
  content e _ := content?_piece e
  first e _ := (slice?_tokens e).1
  behind e _ := (slice?_tokens e).2
  arguments name m :=
    Nat.le_trans (m.weight_collectArguments name _) (Nat.le_of_eq (weight_ofTokens list))
  name := by
    rintro braced paired before brace after split opens
    obtain ⟨links, found, rfl⟩ := Token.pairStrictly_eq_ok_iff.mp paired
    have alone : ∀ t ∈ list.map Token.unpaired, t.offset = 0 := by
      intro t member
      obtain ⟨u, _, rfl⟩ := List.mem_map.mp member
      rfl
    obtain ⟨name, close, behind, rfl, _, _, offset⟩ :=
      Token.spanned_link alone found before brace after split opens
    have length : brace.offset.toNat = name.length + 1 := by omega
    have here : before ++ brace :: (name ++ close :: behind) =
        (before ++ [brace]) ++ (name ++ close :: behind) := by simp
    have start : before.length + 1 = (before ++ [brace]).length := by simp
    rw [split, length, slice?_of_le (by omega) (by simp), here, start, List.drop_left]
    congr 2
    simp only [List.length_append, List.length_singleton]
    omega

namespace Formula.Machine

variable {o : Options} {levels calls : Nat} {m after : Machine}

/-- The machine is within the limits that are given. -/
structure Within (levels calls : Nat) (m : Machine) : Prop where
  depth : m.depth ≤ levels
  calls : m.scope.calls ≤ calls

/-- A call stays within the limits if these are not below those that are fixed. -/
theorem Within.call (within : m.Within levels calls) (deep : Macro.maxDepth ≤ levels)
    (many : Scope.maxCalls ≤ calls) (t : Token) (name : String) (f : Macro) (r : Reading) :
    (m.call t name f r).Within levels calls := by
  unfold Machine.call
  split
  · exact ⟨within.depth, within.calls⟩
  case isFalse room =>
    have counted : m.scope.count.calls ≤ calls := by
      simp only [Scope.count]
      omega
    have deeper : m.depth + 1 ≤ levels := by omega
    dsimp only
    cases m.scope.callTokens name f (f.collectArguments name r.left).1 with
    | error e => exact ⟨within.depth, counted⟩
    | ok tokens => exact ⟨deeper, counted⟩

/-- A step of a row stays within the limits. -/
theorem Within.act {bound : Queue} (within : m.Within levels calls)
    (deep : Macro.maxDepth ≤ levels) (many : Scope.maxCalls ≤ calls) (t : Token)
    (action : Action bound) (r : Reading) : (m.act t action r).Within levels calls := by
  cases action with
  | skip => exact ⟨within.depth, within.calls⟩
  | promote marks => exact ⟨within.depth, within.calls⟩
  | place nodes => exact ⟨within.depth, within.calls⟩
  | add plan => exact ⟨within.depth, within.calls⟩
  | define name f => exact ⟨within.depth, within.calls⟩
  | call name f => exact within.call deep many t name f r

/-- The state after a state that is within the limits is so as well. -/
theorem Within.next (within : m.Within levels calls) (deep : Macro.maxDepth ≤ levels)
    (many : Scope.maxCalls ≤ calls) (follows : m.next? o = some after) :
    after.Within levels calls := by
  unfold next? at follows
  split at follows
  case h_1 r =>
    split at follows
    · cases follows
      exact ⟨within.depth, within.calls⟩
    · cases follows
      exact within.act deep many _ _ _
  case h_2 => cases follows; exact ⟨within.depth, within.calls⟩
  case h_3 => cases follows; exact ⟨within.depth, within.calls⟩
  case h_4 =>
    split at follows
    · cases follows
    · cases follows
      exact ⟨within.depth, within.calls⟩
    · cases follows
      exact ⟨Nat.le_trans (Nat.sub_le _ _) within.depth, within.calls⟩

/-- All states that are reached from a state within the limits are within them. -/
theorem Within.run (within : m.Within levels calls) (deep : Macro.maxDepth ≤ levels)
    (many : Scope.maxCalls ≤ calls) (run : Run o m after) : after.Within levels calls := by
  induction run with
  | refl => exact within
  | tail _ follows ih => exact ih.next deep many follows

/-- Reading a token list comes to an end, whatever partners its delimiters are said to have and
whatever the known macros call. The machine then is on the level on which it started, with the
reader's result; on the way it never was on a deeper level than allowed, unless it started there,
and it never expanded more calls than allowed. -/
theorem reading_ends_within_limits (o : Options) (c : Context) (tokens : List Token) (depth : Nat)
    (s : Scope) :
    let job := Job.start (.ofTokens tokens) c none
    let result := readJob o depth job s
    let last : Machine := { depth, scope := result.2, focus := .done result.1 }
    Run o (start depth s job) last ∧ last.next? o = none ∧
      (∀ m, Run o (start depth s job) m →
        Run o m last ∧ m.Within (max depth Macro.maxDepth) (max s.calls Scope.maxCalls)) ∧
      ∀ list, Queue.InBounds list := by
  intro job result last
  have whole : Run o (start depth s job) last := does_readJob job s []
  have begun : (start depth s job).Within (max depth Macro.maxDepth)
      (max s.calls Scope.maxCalls) := ⟨Nat.le_max_left _ _, Nat.le_max_left _ _⟩
  refine ⟨whole, rfl, fun m reached => ⟨run_of_last rfl whole reached, ?_⟩, Queue.inBounds⟩
  exact begun.run (Nat.le_max_right _ _) (Nat.le_max_right _ _) reached

end Formula.Machine

end TexFormula
