import TexFormula.Expr.Bounded
import TexFormula.Proofs.Expr.Positions
import TexFormula.Proofs.Token.Alike

/-! Expressions of two readings. Lists that are cut in the same places, and inside their expressions
in the same places again, give queues that go together expression by expression, but for comments
that are missing in the second one. What is taken from such queues goes together, and so does what
is left. -/
namespace TexFormula
open Queue Token

/-- Lists of two readings that are cut into expressions in the same places, from wherever the
cutting starts. -/
inductive Aligned (D : Difference) : Prop → List Token → List Token → Prop
  | nil {ends} : Aligned D ends [] []
  | drop {ends c l l'} (allowed : D.comments) (comment : c.kind = { comment := true })
    (gap : Gap ends l) (more : Aligned D ends l l') : Aligned D ends (c :: l) l'
  | keep {ends t t' l l'} (alike : Token.Alike D t t') (kind : (reach t l).1 = (reach t' l').1)
    (whole : Aligned D False (l.take (reach t l).2) (l'.take (reach t' l').2))
    (inner : Aligned D False (l.take (reach t l).2).dropLast (l'.take (reach t' l').2).dropLast)
    (behind : Aligned D ends (l.drop (reach t l).2) (l'.drop (reach t' l').2))
    (more : Aligned D ends l l') : Aligned D ends (t :: l) (t' :: l')

/-- Expressions of two readings in the same place. -/
structure Expr.Alike (D : Difference) (e e' : Expr) : Prop where
  kind : e.kind = e'.kind
  first : Token.Alike D e.first e'.first
  tokens : Aligned D False e.tokens e'.tokens
  rest : Aligned D False e.rest e'.rest
  inner : Aligned D False e.inner e'.inner

/-- Whether the expression of a comment may be missing in front of a queue. -/
def Queue.Gap (ends : Prop) : Queue → Prop
  | [] => ends
  | e :: _ => e.kind = .whitespace

/-- Queues of two readings. -/
inductive Queue.Alike (D : Difference) (ends : Prop) : Queue → Queue → Prop
  | nil : Alike D ends [] []
  | drop {c q q'} (allowed : D.comments) (comment : c.kind = { comment := true })
    (gap : Queue.Gap ends q) (more : Alike D ends q q') :
    Alike D ends (⟨.whitespace, c, []⟩ :: q) q'
  | cons {e e' q q'} (alike : Expr.Alike D e e') (more : Alike D ends q q') :
    Alike D ends (e :: q) (e' :: q')

/-- Two queues with the same expression in front, or with a blank in front of the first one that is
missing in the second one. The queues behind are related again. -/
inductive Queue.Uncons (D : Difference) (R : Queue → Queue → Prop) : Queue → Queue → Prop
  | nil : Uncons D R [] []
  | drop {e q q'} (blank : e.isWhitespace = true) (more : R q q') : Uncons D R (e :: q) q'
  | cons {e e' q q'} (alike : Expr.Alike D e e') (more : R q q') : Uncons D R (e :: q) (e' :: q')

/-- Relations of queues that are kept when expressions are taken from them. -/
def Queue.Unconses (D : Difference) (R : Queue → Queue → Prop) : Prop :=
  ∀ q q', R q q' → Uncons D R q q'

variable {D : Difference} {ends : Prop} {t : Token} {l l' : List Token} {e e' : Expr}
  {q q' p p' : Queue}

/-! ### Lists -/

namespace Aligned

theorem thins (aligned : Aligned D ends l l') : Thins D ends l l' := by
  induction aligned with
  | nil => exact .nil
  | drop allowed comment gap _ ih => exact .drop allowed comment gap ih
  | keep alike _ _ _ _ _ _ _ _ ih => exact .keep alike ih

/-- Nothing about a list has to be known to align it with itself. -/
theorem refl {ends : Prop} {tokens : List Token} (holds : ∀ t ∈ tokens, D.holds t) :
    Aligned D ends tokens tokens := by
  match tokens with
  | [] => exact .nil
  | t :: rest =>
    obtain ⟨here, later⟩ := List.forall_mem_cons.mp holds
    have front : ∀ u ∈ rest.take (reach t rest).2, D.holds u :=
      fun u member => later u (List.mem_of_mem_take member)
    have between : ∀ u ∈ (rest.take (reach t rest).2).dropLast, D.holds u :=
      fun u member => front u (List.mem_of_mem_dropLast member)
    have behind : ∀ u ∈ rest.drop (reach t rest).2, D.holds u :=
      fun u member => later u (List.mem_of_mem_drop member)
    exact .keep (alike_self here) rfl (refl front) (refl between) (refl behind) (refl later)
termination_by tokens.length
decreasing_by
  all_goals simp only [List.length_cons, List.length_take, List.length_dropLast, List.length_drop]
  all_goals omega

end Aligned

/-- An expression is cut out of its own tokens as it is cut out of the list. -/
theorem Queue.reach_take (t : Token) (rest : List Token) :
    reach t (rest.take (reach t rest).2) = reach t rest := by
  unfold reach
  split
  · rfl
  · cases cut : composite? t rest with
    | none =>
      have alone : composite? t [] = none := by
        unfold composite?
        split
        case isTrue within => simp at within; omega
        case isFalse => rfl
      simp [alone]
    | some found =>
      obtain ⟨kind, n⟩ := found
      unfold composite? at cut ⊢
      split at cut
      case isTrue within =>
        obtain ⟨shape, opens, same⟩ := Option.map_eq_some_iff.mp cut
        cases same
        have inside : 0 < t.offset ∧ t.offset ≤ (rest.take t.offset.toNat).length := by
          rw [List.length_take]
          omega
        rw [Option.getD_some, if_pos inside, opens]
        rfl
      case isFalse => cases cut

/-- The last token of a list is in the same place if no comment is missing behind it. -/
theorem Thins.getLast? (thins : Thins D False l l') :
    Option.Rel (Token.Alike D) l.getLast? l'.getLast? := by
  induction thins with
  | nil => exact .none
  | @drop c l l' _ _ gap more ih =>
    cases l with
    | nil => exact gap.elim
    | cons t l => rwa [List.getLast?_cons_cons]
  | @keep t t' l l' alike more ih =>
    rw [List.getLast?_cons, List.getLast?_cons]
    cases left : l.getLast? <;> cases right : l'.getLast? <;> rw [left, right] at ih <;> cases ih
    · exact .some alike
    case some.some alike => exact .some alike

/-! ### Expressions -/

/-- An expression goes together with itself if its tokens are like all others. -/
theorem Expr.alike_self (holds : ∀ t ∈ e.tokens, D.holds t) : Expr.Alike D e e := by
  obtain ⟨here, later⟩ := List.forall_mem_cons.mp holds
  refine ⟨rfl, Token.alike_self here, .refl holds, .refl later, .refl fun t member => ?_⟩
  unfold Expr.inner at member
  split at member
  · exact later t (List.mem_of_mem_dropLast member)
  · exact holds t member

namespace Expr.Alike

theorem argument (alike : Expr.Alike D e e') : Aligned D False e.argument e'.argument := by
  unfold Expr.argument
  rw [← alike.kind]
  split
  · exact alike.inner
  · exact alike.inner
  · exact alike.tokens

theorem isWhitespace (alike : Expr.Alike D e e') : e.isWhitespace = e'.isWhitespace := by
  rw [Expr.isWhitespace, Expr.isWhitespace, alike.kind]

theorem isBreak (alike : Expr.Alike D e e') : e.isBreak = e'.isBreak := by
  have blind : ∀ t : Token, (t.isCellBreak || t.isRowBreak) =
      (t.unpaired.isCellBreak || t.unpaired.isRowBreak) := fun _ => rfl
  rw [Expr.isBreak, Expr.isBreak, alike.kind, alike.first.eq_of_blind blind]

theorem closer? (alike : Expr.Alike D e e') :
    Option.Rel (Token.Alike D) e.closer? e'.closer? := by
  have composite : e.isComposite = e'.isComposite := by
    rw [Expr.isComposite, Expr.isComposite, alike.kind]
  unfold Expr.closer?
  rw [← composite]
  split
  · exact alike.tokens.thins.getLast?
  · exact .none

end Expr.Alike

/-- The expression in front of a list. -/
theorem alike_cut {t' : Token} (alike : Token.Alike D t t')
    (kind : (reach t l).1 = (reach t' l').1)
    (whole : Aligned D False (l.take (reach t l).2) (l'.take (reach t' l').2))
    (inner : Aligned D False (l.take (reach t l).2).dropLast
      (l'.take (reach t' l').2).dropLast) :
    Expr.Alike D ⟨(reach t l).1, t, l.take (reach t l).2⟩
      ⟨(reach t' l').1, t', l'.take (reach t' l').2⟩ := by
  have tokens : Aligned D False (t :: l.take (reach t l).2) (t' :: l'.take (reach t' l').2) := by
    refine .keep alike ?_ ?_ ?_ ?_ whole <;> rw [reach_take, reach_take]
    · exact kind
    · rwa [List.take_take, List.take_take, Nat.min_self, Nat.min_self]
    · rwa [List.take_take, List.take_take, Nat.min_self, Nat.min_self]
    · rw [List.drop_take_self, List.drop_take_self]
      exact .nil
  refine ⟨kind, alike, tokens, whole, ?_⟩
  unfold Expr.inner
  have composite : (Expr.mk (reach t l).1 t (l.take (reach t l).2)).isComposite =
      (Expr.mk (reach t' l').1 t' (l'.take (reach t' l').2)).isComposite := by
    rw [Expr.isComposite, Expr.isComposite, kind]
  rw [← composite]
  split
  · exact inner
  · exact tokens

/-! ### Queues -/

theorem Queue.Gap.ofTokens (gap : TexFormula.Gap ends l) : Queue.Gap ends (ofTokens l) := by
  cases l with
  | nil =>
    rw [Queue.ofTokens]
    exact gap
  | cons t l =>
    have kind : t.kind = { whitespace := true } := gap
    have blank : t.isBlank = true := by simp [isBlank, kind]
    rw [Queue.ofTokens, if_pos blank]
    rfl

theorem Queue.ofTokens_comment (comment : t.kind = { comment := true }) :
    ofTokens (t :: l) = ⟨.whitespace, t, []⟩ :: ofTokens l := by
  have blank : t.isBlank = true := by simp [isBlank, comment]
  rw [ofTokens, if_pos blank]

/-- Aligned lists are cut into queues that go together. -/
theorem Aligned.queue (aligned : Aligned D ends l l') :
    Queue.Alike D ends (ofTokens l) (ofTokens l') := by
  induction aligned with
  | nil =>
    rw [ofTokens]
    exact .nil
  | drop allowed comment gap _ ih =>
    rw [ofTokens_comment comment]
    exact .drop allowed comment (Queue.Gap.ofTokens gap) ih
  | keep alike kind whole inner _ _ _ _ ih _ =>
    rw [ofTokens_cons, ofTokens_cons]
    exact .cons (alike_cut alike kind whole inner) ih

namespace Queue

/-- A queue goes together with itself if its tokens are like all others. -/
theorem alike_self (holds : ∀ e ∈ q, ∀ t ∈ e.tokens, D.holds t) : Queue.Alike D ends q q := by
  induction q with
  | nil => exact .nil
  | cons e q ih =>
    obtain ⟨here, later⟩ := List.forall_mem_cons.mp holds
    exact .cons (Expr.alike_self here) (ih later)

/-- All tokens of a queue that goes together with another one are like all others. -/
theorem Alike.holds (alike : Queue.Alike D ends q q') : ∀ e ∈ q', ∀ t ∈ e.tokens, D.holds t := by
  induction alike with
  | nil => simp
  | drop _ _ _ _ ih => exact ih
  | cons alike _ ih => exact List.forall_mem_cons.mpr ⟨alike.tokens.thins.holds, ih⟩

theorem Alike.append (alike : Queue.Alike D False q q') (more : Queue.Alike D ends p p') :
    Queue.Alike D ends (q ++ p) (q' ++ p') := by
  induction alike with
  | nil => exact more
  | @drop c q q' allowed comment gap _ ih =>
    refine .drop allowed comment ?_ ih
    cases q with
    | nil => exact gap.elim
    | cons e q => exact gap
  | cons alike _ ih => exact .cons alike ih

/-- Queues without a missing comment at their end can stand anywhere. -/
theorem Alike.anywhere (alike : Queue.Alike D False q q') : Queue.Alike D ends q q' := by
  have whole : Queue.Alike D ends (q ++ []) (q' ++ []) := alike.append .nil
  rwa [List.append_nil, List.append_nil] at whole

/-- What is spliced into a queue comes with it. -/
theorem alike_splice (aligned : Aligned D False l l') (more : Queue.Alike D ends q q') :
    Queue.Alike D ends (q.splice l) (q'.splice l') :=
  aligned.queue.append more

theorem unconses_alike : Unconses D (Queue.Alike D ends) := by
  intro q q' alike
  cases alike with
  | nil => exact .nil
  | drop _ _ _ more => exact .drop rfl more
  | cons alike more => exact .cons alike more

/-- What is taken from two queues, and what is left of them. -/
abbrev Taken (D : Difference) (R : Queue → Queue → Prop) (one other : Option Expr × Queue) : Prop :=
  Option.Rel (Expr.Alike D) one.1 other.1 ∧ R one.2 other.2

variable {R : Queue → Queue → Prop} (uncons : Unconses D R)
include uncons

theorem taken_popArgument (related : R q q') : Taken D R q.popArgument q'.popArgument := by
  unfold popArgument
  induction q generalizing q' with
  | nil =>
    cases uncons _ _ related with
    | nil => exact ⟨.none, related⟩
  | cons e q ih =>
    cases uncons _ _ related with
    | drop blank more =>
      rw [popWhile, if_pos blank]
      exact ih more
    | cons alike more =>
      rw [popWhile, popWhile, ← alike.isWhitespace]
      split
      · exact ih more
      · exact ⟨.some alike, more⟩

theorem taken_popOptions (related : R q q') : Taken D R q.popOptions q'.popOptions := by
  obtain ⟨taken, rest⟩ := taken_popArgument uncons related
  unfold popOptions
  cases one : q.popArgument with
  | mk first behind =>
    cases other : q'.popArgument with
    | mk first' behind' =>
      rw [one, other] at taken rest
      cases taken with
      | none => exact ⟨.none, related⟩
      | @some e e' alike =>
        simp only [← alike.kind]
        split
        · exact ⟨.some alike, rest⟩
        · exact ⟨.none, related⟩

end Queue

theorem Queue.peekArgument?_eq (q : Queue) : q.peekArgument? = q.popArgument.1 := by
  unfold peekArgument? popArgument
  induction q with
  | nil => rfl
  | cons e q ih =>
    cases blank : e.isWhitespace with
    | true => rw [popWhile, if_pos blank, ← ih, List.find?_cons_of_neg (by simp [blank])]
    | false =>
      rw [popWhile, if_neg (by simp [blank]), List.find?_cons_of_pos (by simp [blank])]

/-- Both parts of a queue that is cut at the end of a cell or row go together. -/
theorem Queue.Alike.splitAtBreak (alike : Queue.Alike D True q q') :
    Queue.Alike D True q.splitAtBreak.1 q'.splitAtBreak.1 ∧
      Queue.Alike D True q.splitAtBreak.2 q'.splitAtBreak.2 := by
  unfold Queue.splitAtBreak
  induction alike with
  | nil => exact ⟨.nil, .nil⟩
  | @drop c q q' allowed comment gap more ih =>
    rw [List.takeWhile_cons_of_pos rfl, List.dropWhile_cons_of_pos rfl]
    refine ⟨.drop allowed comment ?_ ih.1, ih.2⟩
    cases q with
    | nil => trivial
    | cons e q =>
      have blank : e.kind = .whitespace := gap
      rw [List.takeWhile_cons_of_pos (by simp [Expr.isBreak, blank])]
      exact blank
  | @cons e e' q q' alike more ih =>
    cases ends : e.isBreak with
    | true =>
      have ends' : e'.isBreak = true := alike.isBreak.symm.trans ends
      simp only [List.takeWhile_cons, List.dropWhile_cons, ends, ends']
      exact ⟨.nil, .cons alike more⟩
    | false =>
      have goes : e'.isBreak = false := alike.isBreak.symm.trans ends
      simp only [List.takeWhile_cons, List.dropWhile_cons, ends, goes]
      exact ⟨.cons alike ih.1, ih.2⟩

/-! ### Queues with a bound -/

namespace Queue.Below

variable {bound bound' : Queue} {b : Queue.Below bound} {b' : Queue.Below bound'}

/-- Expressions of two readings that may be missing, each of which weighs less than a queue. -/
abbrev Found (D : Difference) (e : Option (Expr.Below bound)) (e' : Option (Expr.Below bound')) :
    Prop :=
  Option.Rel (fun e e' => Expr.Alike D e.val e'.val) e e'

/-- What is taken from two queues, and what is left of them. -/
abbrev Taken (D : Difference) (one : Option (Expr.Below bound) × Queue.Below bound)
    (other : Option (Expr.Below bound') × Queue.Below bound') : Prop :=
  Found D one.1 other.1 ∧ Queue.Alike D True one.2.val other.2.val

theorem taken_split {e e' : Option Expr} {rest rest' : Queue}
    (taken : Queue.Taken D (Queue.Alike D True) (e, rest) (e', rest'))
    (fits : (e.elim 0 fun e => e.tokens.length) + rest.weight < bound.weight)
    (fits' : (e'.elim 0 fun e => e.tokens.length) + rest'.weight < bound'.weight) :
    Taken D (split e rest fits) (split e' rest' fits') := by
  obtain ⟨found, left⟩ := taken
  cases found with
  | none => exact ⟨.none, left⟩
  | some alike => exact ⟨.some alike, left⟩

variable (alike : Queue.Alike D True b.val b'.val)
include alike

theorem taken_popArgument : Taken D b.popArgument b'.popArgument :=
  taken_split (Queue.taken_popArgument unconses_alike alike) _ _

theorem taken_popOptions : Taken D b.popOptions b'.popOptions :=
  taken_split (Queue.taken_popOptions unconses_alike alike) _ _

theorem peekArgument? : Option.Rel (Expr.Alike D) b.val.peekArgument? b'.val.peekArgument? := by
  rw [peekArgument?_eq, peekArgument?_eq]
  exact (Queue.taken_popArgument unconses_alike alike).1

theorem peekArgument?_isBreak :
    b.val.peekArgument?.all Expr.isBreak = b'.val.peekArgument?.all Expr.isBreak := by
  have next := peekArgument? alike
  generalize b.val.peekArgument? = e at next
  generalize b'.val.peekArgument? = e' at next
  cases next with
  | none => rfl
  | some same => exact same.isBreak

/-- An argument in square brackets, for a command that has one. -/
theorem taken_optional (takes : Bool) :
    Taken D (if takes then b.popOptions else (none, b))
      (if takes then b'.popOptions else (none, b')) := by
  cases takes with
  | false => exact ⟨.none, alike⟩
  | true => exact taken_popOptions alike

theorem taken_takeArgument : Taken D b.takeArgument b'.takeArgument := by
  have next := peekArgument? alike
  unfold takeArgument
  cases one : b.val.peekArgument? <;> cases other : b'.val.peekArgument? <;>
    rw [one, other] at next <;> cases next
  · exact ⟨.none, alike⟩
  case some.some e e' same =>
    simp only [← same.isBreak]
    split
    · exact ⟨.none, alike⟩
    · exact taken_popArgument alike

theorem taken_takeArguments (count : Nat) :
    List.Forall₂ (fun e e' => Expr.Alike D e.val e'.val) (b.takeArguments count).1
        (b'.takeArguments count).1 ∧
      Queue.Alike D True (b.takeArguments count).2.val (b'.takeArguments count).2.val := by
  induction count generalizing b b' with
  | zero => exact ⟨.nil, alike⟩
  | succ count ih =>
    obtain ⟨found, left⟩ := taken_takeArgument alike
    unfold takeArguments
    cases one : b.takeArgument with
    | mk first behind =>
      cases other : b'.takeArgument with
      | mk first' behind' =>
        rw [one, other] at found left
        cases found with
        | none => exact ⟨.nil, left⟩
        | some alike =>
          obtain ⟨others, rest⟩ := ih left
          exact ⟨.cons alike others, rest⟩

theorem alike_splitAtBreak :
    Queue.Alike D True b.splitAtBreak.1.val b'.splitAtBreak.1.val ∧
      Queue.Alike D True b.splitAtBreak.2.val b'.splitAtBreak.2.val :=
  alike.splitAtBreak

end Queue.Below

end TexFormula
