import TexFormula.Plan.Step
import TexFormula.Proofs.Expr.Positions

/-! Expressions that show. A token that is neither blank nor a delimiter nor a mark for the next
node shows wherever it stands, and so does an expression around it; an environment or a pair of
fences shows whatever is in it. If such a token is in a token list, and is no delimiter there, then
an expression of the list shows (`Queue.shows_ofTokens`). -/
namespace TexFormula
open Queue

/-- Whether a token has a node by itself, or takes part in that of a command. -/
def Token.isShown (t : Token) : Bool :=
  let k := t.kind
  !(t.isBlank || k.opens || k.closes || k.fence || k.null) && (Step.pendingMarks? t).isNone

/-- An expression that shows. -/
inductive Expr.Shows : Expr → Prop
  | single {t : Token} {rest : List Token} (shown : t.isShown = true) : Shows ⟨.single, t, rest⟩
  | environment {t : Token} {rest : List Token} : Shows ⟨.environment, t, rest⟩
  | fenced {t : Token} {rest : List Token} : Shows ⟨.fenced, t, rest⟩
  | group {t : Token} {rest : List Token} {e : Expr} (member : e ∈ ofTokens rest.dropLast)
    (shows : Shows e) : Shows ⟨.group, t, rest⟩
  | options {t : Token} {rest : List Token} {e : Expr} (member : e ∈ ofTokens rest)
    (shows : Shows e) : Shows ⟨.options, t, rest⟩

/-- Whether an expression of a queue shows. -/
def Queue.Shows (q : Queue) : Prop :=
  ∃ e ∈ q, e.Shows

variable {u x : Token} {rest : List Token}

/-- An expression of several tokens reaches as far as its delimiter says. -/
theorem Queue.composite_of_reach (far : 0 < (reach x rest).2) :
    (compositeKind? x).isSome ∧ ((reach x rest).2 : Int) = x.offset ∧
      ∀ first more, (Expr.mk (reach x rest).1 first more).isComposite = true := by
  unfold reach at far ⊢
  split at far
  case isTrue => cases far
  case isFalse shown =>
    rw [if_neg shown]
    unfold composite? at far ⊢
    split at far
    case isFalse => cases far
    case isTrue within =>
      rw [if_pos within]
      cases opens : compositeKind? x with
      | none =>
        rw [opens] at far
        cases far
      | some kind =>
        refine ⟨rfl, Int.toNat_of_nonneg (Int.le_of_lt within.1), fun first more => ?_⟩
        unfold compositeKind? at opens
        grind [Expr.isComposite]

/-- An expression ends in the list that it starts in. -/
theorem Queue.reach_le (x : Token) (rest : List Token) : (reach x rest).2 ≤ rest.length := by
  unfold reach composite?
  split
  · exact Nat.zero_le _
  · split
    · cases compositeKind? x with
      | none => exact Nat.zero_le _
      | some kind =>
        show x.offset.toNat ≤ rest.length
        omega
    · exact Nat.zero_le _

/-- What is taken of a list beyond one of its tokens has the token, and what is left has not. -/
theorem Queue.take_beyond (v behind : List Token) (u : Token) (k : Nat) :
    (v ++ u :: behind).take (v.length + 1 + k) = v ++ u :: behind.take k ∧
      (v ++ u :: behind).drop (v.length + 1 + k) = behind.drop k := by
  have split (tail : List Token) : v ++ u :: tail = (v ++ [u]) ++ tail := by simp
  have length : v.length + 1 = (v ++ [u]).length := by simp
  rw [split behind, split (behind.take k), length, List.take_length_add_append,
    List.drop_length_add_append]
  exact ⟨rfl, rfl⟩

theorem Queue.dropLast_beyond (v : List Token) {behind : List Token} (u : Token) (k : Nat)
    (some : 0 < behind.length) :
    (v ++ u :: behind.take (k + 1)).dropLast = v ++ u :: (behind.take (k + 1)).dropLast := by
  obtain ⟨b, rest, rfl⟩ := List.exists_cons_of_length_pos some
  rw [List.dropLast_append_cons, List.take_succ_cons, List.dropLast_cons_cons]

/-- An expression of several tokens shows if something in it does. -/
theorem Expr.shows_of_composite {e : Expr} (composite : e.isComposite = true)
    (options : Queue.Shows (ofTokens e.rest)) (group : Queue.Shows (ofTokens e.rest.dropLast)) :
    e.Shows := by
  obtain ⟨kind, first, rest⟩ := e
  obtain ⟨inOptions, member, shows⟩ := options
  obtain ⟨inGroup, member', shows'⟩ := group
  cases kind with
  | single | whitespace => cases composite
  | environment => exact .environment
  | fenced => exact .fenced
  | options => exact .options member shows
  | group => exact .group member' shows'

/-- A token that shows is in an expression that does, unless it is the partner of a delimiter. -/
theorem Queue.shows_ofTokens (shown : u.isShown = true) (alone : compositeKind? u = none)
    {front : List Token} (uncrossed : ∀ w x v, front = w ++ x :: v → (compositeKind? x).isSome →
      x.offset ≠ v.length + 1) (behind : List Token) :
    Queue.Shows (ofTokens (front ++ u :: behind)) := by
  match front with
  | [] =>
    have solid : u.isBlank = false := by
      unfold Token.isShown at shown
      simp only [Bool.and_eq_true, Bool.not_eq_true', Bool.or_eq_false_iff] at shown
      exact shown.1.1.1.1.1
    have reaches : reach u behind = (.single, 0) := by
      rw [reach, solid, composite?, alone]
      simp
    rw [List.nil_append, ofTokens_cons, reaches]
    exact ⟨_, List.mem_cons_self, .single shown⟩
  | x :: v =>
    have later (w : List Token) (suffix : w <:+ v) (behind : List Token) :
        Queue.Shows (ofTokens (w ++ u :: behind)) := by
      refine shows_ofTokens shown alone (fun w' y z split => ?_) behind
      obtain ⟨skipped, rfl⟩ := suffix
      exact uncrossed (x :: (skipped ++ w')) y z (by rw [split]; simp)
    let whole := v ++ u :: behind
    rw [List.cons_append, ofTokens_cons]
    by_cases short : (reach x whole).2 ≤ v.length
    · -- the expression ends in front of the token
      obtain ⟨e, member, shows⟩ := later _ (List.drop_suffix (reach x whole).2 v) behind
      rw [List.drop_append_of_le_length short]
      exact ⟨e, List.mem_cons_of_mem _ member, shows⟩
    · -- the token is inside the expression, and not at its end
      have far : v.length < (reach x whole).2 := Nat.lt_of_not_le short
      obtain ⟨opens, offset, composite⟩ := composite_of_reach (Nat.zero_lt_of_lt far)
      have apart := uncrossed [] x v rfl opens
      obtain ⟨k, more⟩ : ∃ k, (reach x whole).2 = v.length + 1 + (k + 1) :=
        ⟨(reach x whole).2 - v.length - 2, by omega⟩
      have inside : (reach x whole).2 ≤ whole.length := reach_le x whole
      rw [more, List.length_append, List.length_cons] at inside
      refine ⟨_, List.mem_cons_self, Expr.shows_of_composite (composite _ _) ?_ ?_⟩
      · rw [more, (take_beyond v behind u (k + 1)).1]
        exact later v (List.suffix_refl v) _
      · rw [more, (take_beyond v behind u (k + 1)).1, dropLast_beyond v u k (by omega)]
        exact later v (List.suffix_refl v) _
termination_by front.length
decreasing_by
  have shorter := suffix.length_le
  simp only [List.length_cons]
  omega

end TexFormula
