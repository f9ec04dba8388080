import TexFormula.Macro.Call
import TexFormula.Proofs.Expr.Spans

/-! Arguments of calls. Whatever is taken as an argument stands in one piece behind the call, unless
it is the preset of an optional argument. -/
namespace TexFormula.Macro

theorem infix_of_mem_takeArguments {n : Nat} {q : Queue} :
    ∀ a ∈ (takeArguments n q).1, ∃ e ∈ q, a <:+: e.tokens := by
  induction n generalizing q with
  | zero => simp [takeArguments]
  | succ n ih =>
    unfold takeArguments
    split
    case h_1 => simp
    case h_2 e rest taken =>
      obtain ⟨popped, remaining⟩ := Queue.mem_of_popArgument taken
      split
      · simp
      · refine List.forall_mem_cons.mpr ⟨⟨e, popped e rfl, e.argument_infix⟩, fun a member => ?_⟩
        obtain ⟨d, inside, piece⟩ := ih a member
        exact ⟨d, remaining d inside, piece⟩

theorem mem_takeOptional {m : Macro} {q : Queue} :
    (∀ a ∈ (m.takeOptional q).1, (∃ e ∈ q, a <:+: e.tokens) ∨ a ∈ m.optional) ∧
      ∀ e ∈ (m.takeOptional q).2, e ∈ q := by
  unfold takeOptional
  split
  case h_1 => exact ⟨by simp, fun _ member => member⟩
  case h_2 tokens given =>
    split
    · exact ⟨by simp, fun _ member => member⟩
    · split
      case h_1 e rest taken =>
        obtain ⟨popped, remaining⟩ := Queue.mem_of_popOptions taken
        exact ⟨by simpa using .inl ⟨e, popped e rfl, e.inner_infix⟩, remaining⟩
      case h_2 rest taken =>
        obtain ⟨_, remaining⟩ := Queue.mem_of_popOptions taken
        exact ⟨by simpa using .inr given, remaining⟩

/-- What is left behind the arguments of a call was in the queue before. -/
theorem mem_of_mem_takeArguments {n : Nat} {q : Queue} : ∀ e ∈ (takeArguments n q).2, e ∈ q := by
  induction n generalizing q with
  | zero => exact fun _ member => member
  | succ n ih =>
    unfold takeArguments
    split
    case h_1 rest taken => exact (Queue.mem_of_popArgument taken).2
    case h_2 e rest taken =>
      obtain ⟨_, remaining⟩ := Queue.mem_of_popArgument taken
      split
      · exact remaining
      · exact fun e member => remaining e (ih e member)

theorem mem_of_mem_collectArguments {name : String} {m : Macro} {q : Queue} :
    ∀ e ∈ (m.collectArguments name q).2, e ∈ q := by
  have first := (mem_takeOptional (m := m) (q := q)).2
  unfold collectArguments
  simp only
  split <;> exact fun e member => first e (mem_of_mem_takeArguments e member)

/-- An argument of a call is a piece of what follows the call, or the preset. -/
theorem infix_of_mem_collectArguments {name : String} {m : Macro} {rest : List Token}
    {arguments : List (List Token)}
    (taken : (m.collectArguments name (Queue.ofTokens rest)).1 = .ok arguments) :
    ∀ a ∈ arguments, a <:+: rest ∨ a ∈ m.optional := by
  obtain ⟨first, remaining⟩ := mem_takeOptional (m := m) (q := Queue.ofTokens rest)
  unfold collectArguments at taken
  simp only at taken
  split at taken
  · cases taken
  · cases taken
    intro a member
    rcases List.mem_append.mp member with member | member
    · refine (first a member).imp_left ?_
      rintro ⟨e, inside, piece⟩
      exact piece.trans (Queue.infix_of_mem_ofTokens inside)
    · obtain ⟨e, inside, piece⟩ := infix_of_mem_takeArguments a member
      exact .inl (piece.trans (Queue.infix_of_mem_ofTokens (remaining e inside)))

end TexFormula.Macro
