import TexFormula.Proofs.Expr.Shows
import TexFormula.Proofs.Expr.Similar

/-! Queues that differ in one place. Two queues can have the same expressions up to one that is
composite in both and as long, and the same expressions again behind it; how much of the second part
is left when the place has gone by is what tells that it has (`Queue.Beside`). What takes arguments
from both queues takes the same from them as long as it does not come to the place, and leaves
queues that differ in one place again. The queues may also have the same expressions up to a place
where both end or go on with a break, and differ in all that follows: no command goes over a break.
-/
namespace TexFormula
open Queue

/-- Queues with the same expressions but in one place, which is gone when fewer than `left` tokens
are left, or up to where both stop and `W` allows that they differ. -/
inductive Queue.Beside (W : Queue → Queue → Prop) (left : Nat) : Queue → Queue → Prop
  | past {q : Queue} (gone : q.weight < left) : Beside W left q q
  | wall {p p' : Queue} (given : W p p') (wall : Wall p) (wall' : Wall p') (never : left = 0) :
    Beside W left p p'
  | here {e e' : Expr} {q : Queue} (similar : e.Similar e') (composite : e.isComposite = true)
    (length : e.tokens.length = e'.tokens.length) (gone : q.weight < left)
    (reaches : left ≤ weight (e :: q))
    (filled : e.kind = .group → Shows (ofTokens e.inner) ∧ Shows (ofTokens e'.inner))
    (deeper : e.kind = .options → left ≤ weight (splice e.rest q))
    (inside : e.kind = .options → Beside W left (splice e.rest q) (splice e'.rest q)) :
    Beside W left (e :: q) (e' :: q)
  | there {e : Expr} {q q' : Queue} (reaches : left ≤ q.weight) (more : Beside W left q q') :
    Beside W left (e :: q) (e :: q')

/-- What is taken from two queues that differ in one place. It is the same unless the place was in
it. -/
structure Queue.Below.TakenBeside {α β : Type} {bound bound' : Queue} (W : Queue → Queue → Prop)
    (left : Nat) (R : α → β → Prop) (one : α × Queue.Below bound) (other : β × Queue.Below bound') :
    Prop where
  rest : Beside W left one.2.val other.2.val
  before : left ≤ one.2.val.weight → R one.1 other.1

variable {W : Queue → Queue → Prop} {left : Nat} {q q' p rest : Queue} {e e' b : Expr}
  {text text' : String}

theorem Queue.weight_splice (tokens : List Token) (q : Queue) :
    (splice tokens q).weight = tokens.length + q.weight := by
  rw [splice, weight_append, weight_ofTokens]

theorem Expr.isBreak_of_isComposite (composite : e.isComposite = true) :
    e.isBreak = false ∧ e.isWhitespace = false := by
  obtain ⟨kind, first, more⟩ := e
  cases kind <;> first | exact ⟨rfl, rfl⟩ | cases composite

namespace Queue.Beside

/-! ### Queues -/

theorem weight_eq (beside : Beside W left q q') (some : 0 < left) : q.weight = q'.weight := by
  induction beside with
  | past => rfl
  | wall _ _ _ never => omega
  | here _ _ length => rw [weight_cons, weight_cons, length]
  | there _ _ ih => rw [weight_cons, weight_cons, ih]

theorem eq_of_gone (beside : Beside W left q q') (gone : q.weight < left) : q = q' := by
  cases beside with
  | past => rfl
  | wall _ _ _ never => omega
  | here _ _ _ _ reaches => omega
  | there reaches =>
    rw [weight_cons] at gone
    omega

theorem first_eq (beside : Beside W left (e :: q) (e' :: q')) (stops : ¬ W (e :: q) (e' :: q')) :
    e.first = e'.first := by
  cases beside with
  | past => rfl
  | wall given => exact absurd given stops
  | here similar => exact similar.first
  | there => rfl

theorem prepend (beside : Beside W left q q') (reaches : left ≤ q.weight) (p : Queue) :
    Beside W left (p ++ q) (p ++ q') := by
  induction p with
  | nil => exact beside
  | cons e p ih =>
    have further : left ≤ weight (p ++ q) := by
      rw [weight_append]
      omega
    exact .there further ih

/-- The same queue behind two that differ in one place. -/
theorem append (beside : Beside (fun _ _ => False) left q q') (more : Queue) :
    Beside (fun _ _ => False) (left + more.weight) (q ++ more) (q' ++ more) := by
  have longer (q : Queue) : weight (q ++ more) = q.weight + more.weight := weight_append q more
  induction beside with
  | @past q gone =>
    have behind : weight (q ++ more) < left + more.weight := by
      rw [longer]
      omega
    exact .past behind
  | wall given => exact given.elim
  | @here e e' q similar composite length gone reaches filled deeper inside ih =>
    have reached : left + more.weight ≤ weight (e :: (q ++ more)) := by
      rw [weight_cons] at reaches
      rw [weight_cons, longer]
      omega
    have behind : weight (q ++ more) < left + more.weight := by
      rw [longer]
      omega
    refine .here similar composite length behind reached filled (fun options => ?_)
      fun options => ?_
    · have within := deeper options
      have total : weight (q ++ more) = q.weight + more.weight := longer q
      change left + more.weight ≤ (splice e.rest (q ++ more)).weight
      rw [weight_splice] at within ⊢
      omega
    · have spliced := ih options
      rwa [splice, splice, List.append_assoc, List.append_assoc] at spliced
  | @there e q q' reaches more' ih =>
    have further : left + more.weight ≤ weight (q ++ more) := by
      rw [longer]
      omega
    exact .there further ih

/-! ### Taking expressions -/

/-- No argument comes next in both queues, or only a break. Otherwise one is taken from both, and it
is the same unless the place was in it. -/
theorem popArgument (beside : Beside W left q q') :
    ((∀ b ∈ q.popArgument.1, b.isBreak = true) ∧ ∀ b ∈ q'.popArgument.1, b.isBreak = true) ∨
      Option.Rel Expr.Similar q.popArgument.1 q'.popArgument.1 ∧
        Beside W left q.popArgument.2 q'.popArgument.2 ∧
        (left ≤ q.popArgument.2.weight → q.popArgument.1 = q'.popArgument.1) := by
  have same (first : Option Expr) : Option.Rel Expr.Similar first first := by
    cases first with
    | none => exact .none
    | some e => exact .some (.refl e)
  unfold Queue.popArgument
  induction beside with
  | @past q gone =>
    have less : (q.popWhile Expr.isWhitespace).2.weight ≤ q.weight :=
      Nat.le_trans (Nat.le_add_left _ _) (weight_popWhile _ q)
    exact .inr ⟨same _, .past (by omega), fun _ => rfl⟩
  | wall given wall wall' => exact .inl ⟨wall.popArgument, wall'.popArgument⟩
  | @here e e' q similar composite length gone =>
    have shown : e.isWhitespace = false := (Expr.isBreak_of_isComposite composite).2
    rw [popWhile, popWhile, ← similar.isWhitespace, shown]
    exact .inr ⟨.some similar, .past gone, fun reaches => absurd reaches (Nat.not_le.mpr gone)⟩
  | @there e q q' reaches more ih =>
    rw [popWhile, popWhile]
    split
    · exact ih
    · exact .inr ⟨same _, more, fun _ => rfl⟩

/-- What is in square brackets next is taken from both queues, and it is the same unless the place
was in it. -/
theorem popOptions (beside : Beside W left q q') :
    Beside W left q.popOptions.2 q'.popOptions.2 ∧
      (left ≤ q.popOptions.2.weight → q.popOptions.1 = q'.popOptions.1) ∧
      q.popOptions.1.isSome = q'.popOptions.1.isSome := by
  rcases beside.popArgument with ⟨breaks, breaks'⟩ | next
  · rw [popOptions_of_breaks breaks, popOptions_of_breaks breaks']
    exact ⟨beside, fun _ => rfl, rfl⟩
  · unfold Queue.popOptions
    cases taken : q.popArgument with
    | mk first behind =>
      cases taken' : q'.popArgument with
      | mk first' behind' =>
        rw [taken, taken'] at next
        obtain ⟨similar, more, same⟩ := next
        cases similar with
        | none => exact ⟨beside, fun _ => rfl, rfl⟩
        | some alike =>
          simp only [← alike.kind]
          split
          · exact ⟨more, same, rfl⟩
          · exact ⟨beside, fun _ => rfl, rfl⟩

/-- The next break is the same in both queues, and what stands before it too unless the place was
there. -/
theorem splitAtBreak (beside : Beside W left q q') :
    Beside W left q.splitAtBreak.2 q'.splitAtBreak.2 ∧
      (left ≤ q.splitAtBreak.2.weight → q.splitAtBreak.1 = q'.splitAtBreak.1) := by
  have less (q : Queue) : q.splitAtBreak.2.weight ≤ q.weight := by
    have whole := weight_splitAtBreak q
    omega
  induction beside with
  | @past q gone => exact ⟨.past (Nat.lt_of_le_of_lt (less q) gone), fun _ => rfl⟩
  | wall given wall wall' never =>
    rw [wall.splitAtBreak, wall'.splitAtBreak]
    exact ⟨.wall given wall wall' never, fun _ => rfl⟩
  | @here e e' q similar composite length gone =>
    have goes := (Expr.isBreak_of_isComposite composite).1
    have behind := Nat.lt_of_le_of_lt (less q) gone
    rw [splitAtBreak_of_goes goes, splitAtBreak_of_goes (similar.isBreak.symm.trans goes)]
    exact ⟨.past behind, fun reaches => absurd reaches (Nat.not_le.mpr behind)⟩
  | @there e q q' reaches more ih =>
    cases goes : e.isBreak with
    | true =>
      rw [splitAtBreak_of_break goes, splitAtBreak_of_break goes]
      exact ⟨.there reaches more, fun _ => rfl⟩
    | false =>
      rw [splitAtBreak_of_goes goes, splitAtBreak_of_goes goes]
      exact ⟨ih.1, fun reached => congrArg (e :: ·) (ih.2 reached)⟩

theorem behindLength_congr (same : Length.Same text text') (q : Queue) :
    (Plan.extendLength text q).2 = (Plan.extendLength text' q).2 := by
  induction q generalizing text text' with
  | nil => rfl
  | cons e q ih =>
    rw [Plan.extendLength, Plan.extendLength, ← same.isSome_parse?]
    split
    · rfl
    · dsimp only
      split
      · exact ih (same.append e.first.value)
      · rfl

/-- What is left behind a length. The text of the length is the same if its start is. -/
theorem extendLength (beside : Beside W left q q') (same : Length.Same text text') :
    Beside W left (Plan.extendLength text q).2 (Plan.extendLength text' q').2 ∧
      (text = text' → (Plan.extendLength text q).1 = (Plan.extendLength text' q').1) := by
  induction beside generalizing text text' with
  | @past q gone =>
    rw [← behindLength_congr same]
    exact ⟨.past (Nat.lt_of_le_of_lt (Plan.weight_extendLength text q) gone), fun equal => by
      rw [equal]⟩
  | wall given wall wall' never =>
    rw [wall.extendLength, wall'.extendLength]
    exact ⟨.wall given wall wall' never, id⟩
  | @here e e' q similar composite length gone reaches filled deeper inside =>
    have other : (e.kind == .single) = false := by
      obtain ⟨kind, first, more⟩ := e
      cases kind <;> first | rfl | cases composite
    rw [Plan.extendLength, Plan.extendLength, ← same.isSome_parse?, ← similar.kind, other]
    simp only [Bool.false_and, if_neg Bool.false_ne_true, ite_self]
    exact ⟨.here similar composite length gone reaches filled deeper inside, id⟩
  | @there e q q' reaches more ih =>
    rw [Plan.extendLength, Plan.extendLength, ← same.isSome_parse?]
    split
    · exact ⟨.there reaches more, id⟩
    · dsimp only
      split
      · obtain ⟨behind, whole⟩ := ih (same.append e.first.value)
        exact ⟨behind, fun equal => whole (by rw [equal])⟩
      · exact ⟨.there reaches more, id⟩

end Queue.Beside

/-! ### Queues with a bound -/

namespace Queue.Below

variable {bound bound' : Queue} {q : Queue.Below bound} {q' : Queue.Below bound'}

/-- Expressions that are the same, whatever bounds them. -/
abbrev SameExpr (e : Expr.Below bound) (e' : Expr.Below bound') : Prop :=
  e.val = e'.val

theorem weight_takeArgument_le (q : Queue.Below bound) :
    q.takeArgument.2.val.weight ≤ q.val.weight := by
  unfold takeArgument
  split
  · exact Nat.le_refl _
  · split
    · exact Nat.le_refl _
    · exact weight_popArgument_le q

theorem weight_takeArguments_le (q : Queue.Below bound) (count : Nat) :
    (q.takeArguments count).2.val.weight ≤ q.val.weight := by
  induction count generalizing q with
  | zero => exact Nat.le_refl _
  | succ count ih =>
    have first := weight_takeArgument_le q
    unfold takeArguments
    split
    case h_1 rest taken =>
      rw [taken] at first
      exact first
    case h_2 e rest taken =>
      rw [taken] at first
      exact Nat.le_trans (ih rest) first

variable (beside : Beside W left q.val q'.val)
include beside

omit beside in
theorem takeArgument_of_breaks (breaks : ∀ b ∈ q.val.popArgument.1, b.isBreak = true) :
    q.takeArgument = (none, q) := by
  unfold takeArgument
  rw [peekArgument?_eq]
  cases first : q.val.popArgument.1 with
  | none => rfl
  | some b =>
    rw [first] at breaks
    simp only [breaks b rfl, if_true]

theorem beside_takeArgument :
    TakenBeside W left (Option.Rel SameExpr) q.takeArgument q'.takeArgument ∧
      Option.Rel (fun e e' => Expr.Similar e.val e'.val) q.takeArgument.1 q'.takeArgument.1 := by
  have unmoved : TakenBeside (α := Option (Expr.Below bound)) (β := Option (Expr.Below bound')) W
      left (Option.Rel SameExpr) (none, q) (none, q') := ⟨beside, fun _ => .none⟩
  rcases beside.popArgument with ⟨breaks, breaks'⟩ | ⟨similar, more, same⟩
  · rw [takeArgument_of_breaks breaks, takeArgument_of_breaks breaks']
    exact ⟨unmoved, .none⟩
  · unfold takeArgument
    rw [peekArgument?_eq, peekArgument?_eq]
    have first : q.popArgument.1.map Subtype.val = q.val.popArgument.1 := fst_split _ _ _
    have first' : q'.popArgument.1.map Subtype.val = q'.val.popArgument.1 := fst_split _ _ _
    have rest : q.popArgument.2.val = q.val.popArgument.2 := snd_split _ _ _
    have rest' : q'.popArgument.2.val = q'.val.popArgument.2 := snd_split _ _ _
    rw [← first, ← first'] at similar same
    rw [← first, ← first']
    rw [← rest, ← rest'] at more
    rw [← rest] at same
    cases taken : q.popArgument with
    | mk one behind =>
      cases taken' : q'.popArgument with
      | mk other behind' =>
        rw [taken, taken'] at similar same more
        cases one with
        | none =>
          cases other with
          | none => exact ⟨unmoved, .none⟩
          | some e' => cases similar
        | some e =>
          cases other with
          | none => cases similar
          | some e' =>
            cases similar with
            | some alike =>
              simp only [Option.map_some, ← alike.isBreak]
              split
              · exact ⟨unmoved, .none⟩
              · refine ⟨⟨more, fun reaches => .some ?_⟩, .some alike⟩
                exact Option.some.inj (same reaches)

theorem beside_takeArguments (count : Nat) :
    TakenBeside W left (List.Forall₂ SameExpr) (q.takeArguments count)
      (q'.takeArguments count) := by
  induction count generalizing q q' with
  | zero => exact ⟨beside, fun _ => .nil⟩
  | succ count ih =>
    obtain ⟨taken, similar⟩ := beside_takeArgument beside
    unfold takeArguments
    cases one : q.takeArgument with
    | mk first behind =>
      cases other : q'.takeArgument with
      | mk first' behind' =>
        rw [one, other] at taken similar
        obtain ⟨more, same⟩ := taken
        cases similar with
        | none => exact ⟨more, fun _ => .nil⟩
        | some alike =>
          obtain ⟨last, others⟩ := ih more
          refine ⟨last, fun reaches => .cons ?_ (others reaches)⟩
          have less := weight_takeArguments_le behind count
          cases same (Nat.le_trans reaches less) with
          | some equal => exact equal

theorem beside_popOptions :
    TakenBeside W left (Option.Rel SameExpr) q.popOptions q'.popOptions := by
  obtain ⟨more, same, -⟩ := beside.popOptions
  have first : q.popOptions.1.map Subtype.val = q.val.popOptions.1 := fst_split _ _ _
  have first' : q'.popOptions.1.map Subtype.val = q'.val.popOptions.1 := fst_split _ _ _
  have rest : q.popOptions.2.val = q.val.popOptions.2 := snd_split _ _ _
  have rest' : q'.popOptions.2.val = q'.val.popOptions.2 := snd_split _ _ _
  refine ⟨by rw [rest, rest']; exact more, fun reaches => ?_⟩
  have equal := same (rest ▸ reaches)
  rw [← first, ← first'] at equal
  cases one : q.popOptions.1 <;> cases other : q'.popOptions.1 <;> rw [one, other] at equal
  · exact .none
  · cases equal
  · cases equal
  · exact .some (Option.some.inj equal)

theorem beside_splitAtBreak :
    TakenBeside W left (fun p p' => p.val = p'.val) q.splitAtBreak q'.splitAtBreak :=
  ⟨beside.splitAtBreak.1, beside.splitAtBreak.2⟩

end Queue.Below

end TexFormula
