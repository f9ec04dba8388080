import TexFormula.Expr.Queue

/-! Expressions as spans. The expressions of a token list spell the list again, and whatever is read
off an expression is a part of the list in one piece. The first expression of a list is known by its
first token: a blank, a token without a partner, or a brace that knows how far away the end of its
group is. Blanks are cut off one by one and are never in the way of an argument. -/
namespace TexFormula

namespace Expr

/-- The content of an expression is a part of it. -/
theorem inner_infix (e : Expr) : e.inner <:+: e.tokens := by
  unfold inner tokens
  split
  · have front : e.rest.dropLast <:+: e.rest := (List.dropLast_prefix e.rest).isInfix
    exact front.trans (List.suffix_cons e.first e.rest).isInfix
  · exact List.infix_refl _

/-- An argument is a part of the expression that gives it. -/
theorem argument_infix (e : Expr) : e.argument <:+: e.tokens := by
  unfold argument
  split
  · exact inner_infix e
  · exact inner_infix e
  · exact List.infix_refl _

end Expr

namespace Queue

/-- The expressions of a token list are consecutive, and every token is in one of them. -/
theorem flatMap_tokens_ofTokens (tokens : List Token) :
    (ofTokens tokens).flatMap Expr.tokens = tokens := by
  fun_induction ofTokens tokens with
  | case1 => rfl
  | case2 t rest blank ih => rw [List.flatMap_cons, ih]; rfl
  | case3 t rest blank kind n composite ih =>
    rw [List.flatMap_cons, ih, Expr.tokens, List.cons_append, List.take_append_drop]
  | case4 t rest blank composite ih => rw [List.flatMap_cons, ih]; rfl

theorem infix_of_mem_ofTokens {tokens : List Token} {e : Expr} (member : e ∈ ofTokens tokens) :
    e.tokens <:+: tokens := by
  obtain ⟨before, after, split⟩ := List.append_of_mem member
  have spelled := flatMap_tokens_ofTokens tokens
  rw [split, List.flatMap_append, List.flatMap_cons] at spelled
  exact ⟨before.flatMap Expr.tokens, after.flatMap Expr.tokens, by
    rw [← spelled, List.append_assoc]⟩

/-- What is popped comes out of the queue, and so does what remains. -/
theorem mem_of_popWhile {p : Expr → Bool} {q rest : Queue} {popped : Option Expr}
    (taken : q.popWhile p = (popped, rest)) : (∀ e ∈ popped, e ∈ q) ∧ ∀ e ∈ rest, e ∈ q := by
  induction q with
  | nil => cases taken; simp
  | cons e q ih =>
    unfold popWhile at taken
    split at taken
    · obtain ⟨front, back⟩ := ih taken
      exact ⟨fun d member => List.mem_cons_of_mem e (front d member),
        fun d member => List.mem_cons_of_mem e (back d member)⟩
    · cases taken
      exact ⟨by simp, fun d member => List.mem_cons_of_mem e member⟩

theorem mem_of_popArgument {q rest : Queue} {popped : Option Expr}
    (taken : q.popArgument = (popped, rest)) : (∀ e ∈ popped, e ∈ q) ∧ ∀ e ∈ rest, e ∈ q :=
  mem_of_popWhile taken

theorem mem_of_popOptions {q rest : Queue} {popped : Option Expr}
    (taken : q.popOptions = (popped, rest)) : (∀ e ∈ popped, e ∈ q) ∧ ∀ e ∈ rest, e ∈ q := by
  unfold popOptions at taken
  split at taken
  case h_1 e behind found =>
    split at taken
    · cases taken
      exact mem_of_popArgument found
    · cases taken
      exact ⟨by simp, fun _ member => member⟩
  case h_2 behind found =>
    cases taken
    exact ⟨by simp, fun _ member => member⟩

/-! ### Where a list is cut -/

section Cutting

variable {t opener closer : Token} {gap inner rest : List Token}

theorem ofTokens_blank (blank : t.isBlank = true) :
    ofTokens (t :: rest) = ⟨.whitespace, t, []⟩ :: ofTokens rest := by
  rw [ofTokens, if_pos blank]

theorem ofTokens_alone (solid : t.isBlank = false) (alone : t.offset = 0) :
    ofTokens (t :: rest) = ⟨.single, t, []⟩ :: ofTokens rest := by
  have composite : composite? t rest = none := by simp [composite?, alone]
  rw [ofTokens, if_neg (by simp [solid]), composite]

/-- A delimiter and its partner are cut out together. -/
theorem ofTokens_composite {kind : Expr.Kind} (solid : opener.isBlank = false)
    (opens : compositeKind? opener = some kind) (offset : opener.offset = inner.length + 1) :
    ofTokens (opener :: (inner ++ closer :: rest)) =
      ⟨kind, opener, inner ++ [closer]⟩ :: ofTokens rest := by
  have composite : composite? opener (inner ++ closer :: rest) =
      some (kind, inner.length + 1) := by
    have inside : 0 < opener.offset ∧ opener.offset ≤ (inner ++ closer :: rest).length := by
      rw [offset, List.length_append, List.length_cons]
      omega
    have length : opener.offset.toNat = inner.length + 1 := by omega
    rw [composite?, if_pos inside, opens, length]
    rfl
  have cut : inner ++ closer :: rest = (inner ++ [closer]) ++ rest := by simp
  have count : inner.length + 1 = (inner ++ [closer]).length := by simp
  rw [ofTokens, if_neg (by simp [solid]), composite]
  simp only
  rw [cut, count, List.take_left, List.drop_left]

/-- A group is one expression. -/
theorem ofTokens_curly (solid : opener.isBlank = false) (curly : opener.kind.curly = true)
    (offset : opener.offset = inner.length + 1) :
    ofTokens (opener :: (inner ++ closer :: rest)) =
      ⟨.group, opener, inner ++ [closer]⟩ :: ofTokens rest :=
  ofTokens_composite solid (if_pos curly) offset

theorem popArgument_blank (blank : t.isBlank = true) :
    (ofTokens (t :: rest)).popArgument = (ofTokens rest).popArgument := by
  rw [ofTokens_blank blank]
  rfl

theorem popArgument_gap (blank : ∀ t ∈ gap, t.isBlank = true) :
    (ofTokens (gap ++ rest)).popArgument = (ofTokens rest).popArgument := by
  induction gap with
  | nil => rfl
  | cons t gap ih =>
    obtain ⟨here, later⟩ := List.forall_mem_cons.mp blank
    rw [List.cons_append, popArgument_blank here, ih later]

end Cutting

end Queue

end TexFormula
