import TexFormula.Proofs.Expr.Spans

/-! Taking expressions off a queue. In whatever way expressions are taken, skipped or opened, the
queue spells what is left of the list that it was cut from, and its weight is the number of tokens
that are left (`spelled_runAll`). -/
namespace TexFormula.Queue

/-- The tokens in the expressions of a queue. -/
def spelled (q : Queue) : List Token :=
  q.flatMap Expr.tokens

/-- A way to take an expression off a queue. -/
inductive Taking where
  /-- The first expression. -/
  | front
  /-- The first expression that is not whitespace. -/
  | argument
  /-- The first expression that is not whitespace, if it is in square brackets. -/
  | options
  /-- The first expression that a test does not skip. -/
  | skipping (p : Expr → Bool)

namespace Taking

/-- The expression that is taken, if there is one, and the queue that is left. -/
def run : Taking → Queue → Option Expr × Queue
  | front, q => (q.head?, q.tail)
  | argument, q => q.popArgument
  | options, q => q.popOptions
  | skipping p, q => q.popWhile p

/-- Whether an expression is skipped where one is looked for. -/
def Skips : Taking → Expr → Prop
  | front, _ => False
  | argument, e => e.isWhitespace = true
  | options, e => e.isWhitespace = true
  | skipping p, e => p e = true

end Taking

/-- A step that shortens a queue. -/
inductive Shortening where
  | take (t : Taking)
  /-- An expression is taken, and all of it but the first token is put back. -/
  | reopen (t : Taking)

/-- The queue after a step. -/
def Shortening.apply : Shortening → Queue → Queue
  | take t, q => (t.run q).2
  | reopen t, q =>
    match t.run q with
    | (none, rest) => rest
    | (some e, rest) => splice e.rest rest

/-- The queue after several steps. -/
def runAll (steps : List Shortening) (q : Queue) : Queue :=
  steps.foldl (fun q step => step.apply q) q

variable {q rest : Queue} {e : Expr} {popped : Option Expr}

/-! ### Spelling -/

@[simp] theorem spelled_nil : spelled [] = [] := rfl

@[simp] theorem spelled_cons (e : Expr) (q : Queue) : spelled (e :: q) = e.tokens ++ spelled q :=
  List.flatMap_cons

@[simp] theorem spelled_append (p q : Queue) : spelled (p ++ q) = spelled p ++ spelled q :=
  List.flatMap_append

@[simp] theorem spelled_ofTokens (tokens : List Token) : (ofTokens tokens).spelled = tokens :=
  flatMap_tokens_ofTokens tokens

/-- The weight of a queue is the number of tokens that it spells. -/
theorem length_spelled (q : Queue) : q.spelled.length = q.weight := by
  induction q with
  | nil => rfl
  | cons e q ih => rw [spelled_cons, List.length_append, ih, weight_cons]

@[simp] theorem spelled_splice (tokens : List Token) (q : Queue) :
    (splice tokens q).spelled = tokens ++ q.spelled := by
  rw [splice, spelled_append, spelled_ofTokens]

/-! ### One expression -/

/-- What is skipped, what is taken and what is left make up the queue. -/
theorem split_popWhile {p : Expr → Bool} (taken : q.popWhile p = (popped, rest)) :
    ∃ skipped : Queue, q = skipped ++ (popped.toList ++ rest) ∧ (∀ d ∈ skipped, p d = true) ∧
      ∀ d ∈ popped, p d = false := by
  induction q with
  | nil =>
    cases taken
    exact ⟨[], rfl, List.forall_mem_nil _, by simp⟩
  | cons d q ih =>
    unfold popWhile at taken
    split at taken
    case isTrue skips =>
      obtain ⟨skipped, rfl, each, found⟩ := ih taken
      exact ⟨d :: skipped, rfl, List.forall_mem_cons.mpr ⟨skips, each⟩, found⟩
    case isFalse stops =>
      cases taken
      refine ⟨[], rfl, List.forall_mem_nil _, ?_⟩
      rintro _ ⟨⟩
      exact Bool.eq_false_iff.mpr stops

/-- An expression in square brackets is taken like an argument, and nothing is touched if the next
argument is another one. -/
theorem popOptions_cases (taken : q.popOptions = (popped, rest)) :
    (∃ e, popped = some e ∧ e.kind = .options ∧ q.popArgument = (some e, rest)) ∨
      popped = none ∧ rest = q := by
  unfold popOptions at taken
  split at taken
  case h_1 e behind found =>
    split at taken
    case isTrue bracketed =>
      cases taken
      exact .inl ⟨e, rfl, bracketed, found⟩
    case isFalse =>
      cases taken
      exact .inr ⟨rfl, rfl⟩
  case h_2 =>
    cases taken
    exact .inr ⟨rfl, rfl⟩

/-- Nothing in a queue is lost or doubled by taking an expression. -/
theorem Taking.split {t : Taking} (taken : t.run q = (popped, rest)) :
    ∃ skipped : Queue, q = skipped ++ (popped.toList ++ rest) ∧ (∀ d ∈ skipped, t.Skips d) ∧
      ∀ d ∈ popped, ¬ t.Skips d := by
  have whitespace : ∀ {popped}, q.popArgument = (popped, rest) →
      ∃ skipped : Queue, q = skipped ++ (popped.toList ++ rest) ∧
        (∀ d ∈ skipped, d.isWhitespace = true) ∧ ∀ d ∈ popped, ¬ d.isWhitespace = true := by
    intro popped taken
    obtain ⟨skipped, same, each, found⟩ := split_popWhile taken
    exact ⟨skipped, same, each, fun d member => Bool.eq_false_iff.mp (found d member)⟩
  cases t with
  | front =>
    cases taken
    refine ⟨[], ?_, List.forall_mem_nil _, fun _ _ => id⟩
    cases q <;> rfl
  | argument => exact whitespace taken
  | options =>
    rcases popOptions_cases taken with ⟨e, rfl, _, found⟩ | ⟨rfl, rfl⟩
    · exact whitespace found
    · exact ⟨[], rfl, List.forall_mem_nil _, by simp⟩
  | skipping p =>
    obtain ⟨skipped, same, each, found⟩ := split_popWhile taken
    exact ⟨skipped, same, each, fun d member => Bool.eq_false_iff.mp (found d member)⟩

/-- An expression that is opened leaves what follows its first token. -/
theorem spelled_reopen {t : Taking} (taken : t.run q = (some e, rest)) :
    ∃ skipped : Queue, q = skipped ++ e :: rest ∧ (∀ d ∈ skipped, t.Skips d) ∧ ¬ t.Skips e ∧
      q.spelled = skipped.spelled ++ e.first :: (splice e.rest rest).spelled := by
  obtain ⟨skipped, rfl, each, found⟩ := Taking.split taken
  refine ⟨skipped, rfl, each, found e rfl, ?_⟩
  simp [Expr.tokens]

/-! ### Steps -/

/-- A step leaves an end of what a queue spells. -/
theorem spelled_apply (step : Shortening) (q : Queue) : (step.apply q).spelled <:+ q.spelled := by
  have shorter : ∀ {t : Taking} {popped rest}, t.run q = (popped, rest) →
      rest.spelled <:+ q.spelled := by
    intro t popped rest taken
    obtain ⟨skipped, rfl, _⟩ := Taking.split taken
    exact ⟨skipped.spelled ++ Queue.spelled popped.toList, by simp⟩
  cases step with
  | take t =>
    have taken : t.run q = ((t.run q).1, (t.run q).2) := rfl
    exact shorter taken
  | reopen t =>
    rw [Shortening.apply]
    split
    case h_1 rest taken => exact shorter taken
    case h_2 e rest taken =>
      obtain ⟨skipped, _, _, _, same⟩ := spelled_reopen taken
      rw [same]
      exact ⟨skipped.spelled ++ [e.first], by simp⟩

/-- Several steps leave an end of what a queue spells. -/
theorem spelled_runAll (steps : List Shortening) (q : Queue) :
    (runAll steps q).spelled <:+ q.spelled := by
  induction steps generalizing q with
  | nil => exact List.suffix_refl _
  | cons step steps ih => exact (ih (step.apply q)).trans (spelled_apply step q)

/-! ### Whitespace -/

/-- Whether all whitespace in a queue is spelled by blanks. -/
def Spaced (q : Queue) : Prop :=
  ∀ e ∈ q, e.isWhitespace = true → ∀ t ∈ e.tokens, t.isBlank = true

theorem kind_ne_whitespace {t : Token} {rest : List Token} {kind : Expr.Kind} {n : Nat}
    (composite : composite? t rest = some (kind, n)) : kind ≠ .whitespace := by
  unfold composite? compositeKind? at composite
  grind

theorem spaced_ofTokens (tokens : List Token) : Spaced (ofTokens tokens) := by
  fun_induction ofTokens tokens with
  | case1 => exact List.forall_mem_nil _
  | case2 t rest blank ih =>
    exact List.forall_mem_cons.mpr ⟨fun _ => List.forall_mem_singleton.mpr blank, ih⟩
  | case3 t rest blank kind n composite ih =>
    refine List.forall_mem_cons.mpr ⟨fun whitespace => ?_, ih⟩
    rw [Expr.isWhitespace, beq_iff_eq] at whitespace
    exact absurd whitespace (kind_ne_whitespace composite)
  | case4 t rest blank composite ih =>
    refine List.forall_mem_cons.mpr ⟨fun whitespace => ?_, ih⟩
    cases whitespace

end TexFormula.Queue
