import TexFormula.Proofs.Expr.Spans
import TexFormula.Proofs.Token.Crossing
import TexFormula.Proofs.Token.Partners
import TexFormula.Proofs.Token.Persistence

/-! Pairs of fences. A fence is paired in the same pass as plain brackets, which looks only at the
last opener that is still open, and a bracket pairs with its counterpart even if that is a fence. So
a left and a right fence become partners exactly if the left one encloses what is between them
(`fence_paired_iff`): no bracket may stay open there, and no right bracket may come that pairs with
the fence itself. -/
namespace TexFormula.Token
open Pairing

/-- A delimiter with the fence command of a side in it. Braces and environments, which are paired
strictly, are left out. -/
structure IsFence (side : Side) (t : Token) : Prop where
  sized : ∃ raw, raw.isBlank = false ∧ t.unpaired = ((Sizing.fence side).apply raw).unpaired
  plain : t.kind.curly = false ∧ t.kind.env = false

namespace IsFence

variable {side : Side} {t : Token}

/-- A fence command decides on the fence and the side, whatever the delimiter is. -/
theorem marked (fence : t.IsFence side) :
    ∃ u : Token, u.isBlank = false ∧ t.kind = (Sizing.fence side).mark u.kind := by
  obtain ⟨raw, solid, same⟩ := fence.sized
  have kind : t.kind = ((Sizing.fence side).apply raw).kind := congrArg (·.kind) same
  rw [kind, Sizing.apply]
  split
  · exact ⟨{ kind := { null := true } }, rfl, rfl⟩
  · exact ⟨raw, solid, rfl⟩

theorem solid (fence : t.IsFence side) : t.isBlank = false := by
  obtain ⟨u, solid, kind⟩ := fence.marked
  obtain ⟨_, _, _, _, _, _, _, same⟩ := mark_eq (.fence side) u.kind
  rw [isBlank, kind, same]
  exact solid

theorem fence (fence : t.IsFence side) : t.kind.fence = true := by
  obtain ⟨u, _, kind⟩ := fence.marked
  rw [kind]
  cases side <;> rfl

theorem opens (fence : t.IsFence .left) : PlainOpens t := by
  obtain ⟨u, _, kind⟩ := fence.marked
  refine ⟨?_, fence.plain⟩
  rw [kind]
  rfl

theorem closes (fence : t.IsFence .right) : PlainCloses t := by
  obtain ⟨u, _, kind⟩ := fence.marked
  refine ⟨?_, ?_, fence.plain⟩ <;> rw [kind] <;> rfl

end IsFence

section Pairs

variable {raw prepared front inside back rest : List Token} {opener closer : Token}

/-- A pair that starts at a plain opener is a loose one. -/
theorem Preparation.loose_of_pair (p : Preparation raw prepared)
    (coherent : ∀ t ∈ raw, t.kind.Coherent) {l : Link} (pair : Pair prepared l)
    (found : prepared[l.opener]? = some opener) (opens : PlainOpens opener) : l ∈ p.loose := by
  obtain ⟨joined, reads, together⟩ := p.reads_joined coherent p.map_unpaired_prepared
  rcases p.pair_cases coherent reads together pair with ⟨_, t, here, delimits⟩ | ⟨loose, _⟩
  · cases found.symm.trans here
    rcases delimits with curly | env
    · cases opens.2.1.symm.trans curly
    · cases opens.2.2.symm.trans env
  · exact loose

/-- A delimiter whose partner stands behind it opens, and the partner is a closer that fits. What is
between the two is enclosed. -/
theorem Preparation.partner_of_forward (p : Preparation raw (front ++ opener :: rest))
    (coherent : ∀ t ∈ raw, t.kind.Coherent) (forward : 0 < opener.offset)
    (plain : opener.kind.curly = false ∧ opener.kind.env = false) :
    PlainOpens opener ∧ ∃ inside closer back, rest = inside ++ closer :: back ∧
      opener.offset = inside.length + 1 ∧ Encloses opener inside ∧ PlainCloses closer ∧
      pairsLoosely opener closer = true := by
  have found : (front ++ opener :: rest)[front.length]? = some opener := by simp
  have matched := matched_of_prepare coherent (prepare_eq_ok_iff.mpr ⟨p⟩)
  obtain ⟨j, u, position, there, _, faces⟩ := matched.partner _ _ found (by omega)
  have ahead : front.length < j := by omega
  rw [if_pos ahead] at faces
  have opens : PlainOpens opener := ⟨faces.1, plain⟩
  have loose : ⟨front.length, j⟩ ∈ p.loose :=
    p.loose_of_pair coherent ⟨ahead, opener, found, by simp only; omega⟩ found opens
  have same := p.map_unpaired_nested.trans p.map_unpaired_prepared.symm
  have strict := p.strictlyPaired_nested coherent
  unfold Preparation.loose at loose
  -- The list that loose pairing works on has the same tokens, with fewer partners.
  generalize p.nested = nested at same strict loose
  rw [List.map_append, List.map_cons] at same
  obtain ⟨before, behind, rfl, size, same⟩ := List.map_eq_append_iff.mp same
  obtain ⟨first, behind, rfl, start, same⟩ := List.map_eq_cons_iff.mp same
  have length : front.length = before.length := by simpa using (congrArg List.length size).symm
  obtain ⟨between, last, more, rfl, encloses, closes, fits, ends⟩ :=
    encloses_of_opener strict ((PlainOpens.congr start).mpr opens) loose length
  rw [List.map_append, List.map_cons] at same
  obtain ⟨inside, behind, rfl, within, same⟩ := List.map_eq_append_iff.mp same.symm
  obtain ⟨closer, back, rfl, stop, -⟩ := List.map_eq_cons_iff.mp same
  have inner : inside.length = between.length := by simpa using congrArg List.length within
  refine ⟨opens, inside, closer, back, rfl, ?_, encloses.congr start.symm within,
    (PlainCloses.congr stop).mpr closes, (pairsLoosely_congr start.symm stop).trans fits⟩
  simp only at ends
  omega

section Between

variable (p : Preparation raw (front ++ opener :: (inside ++ closer :: back)))
  (coherent : ∀ t ∈ raw, t.kind.Coherent)

include p coherent

/-- A loose pair of a prepared list is one whose opener encloses what is between the two. -/
theorem Preparation.link_mem_loose_iff (opens : PlainOpens opener) (closes : PlainCloses closer)
    (fits : pairsLoosely opener closer = true) :
    ⟨front.length, front.length + 1 + inside.length⟩ ∈ p.loose ↔ Encloses opener inside := by
  have same := p.map_unpaired_nested.trans p.map_unpaired_prepared.symm
  have paired := p.strictlyPaired_nested coherent
  unfold Preparation.loose
  -- The list that loose pairing works on has the same tokens, with fewer partners.
  generalize p.nested = nested at same paired ⊢
  rw [List.map_append, List.map_cons, List.map_append, List.map_cons] at same
  obtain ⟨before, behind, rfl, size, same⟩ := List.map_eq_append_iff.mp same
  obtain ⟨first, behind, rfl, start, same⟩ := List.map_eq_cons_iff.mp same
  obtain ⟨between, behind, rfl, within, same⟩ := List.map_eq_append_iff.mp same
  obtain ⟨last, rest, rfl, stop, -⟩ := List.map_eq_cons_iff.mp same
  have lengths : front.length = before.length ∧ inside.length = between.length := by
    constructor
    · simpa using (congrArg List.length size).symm
    · simpa using (congrArg List.length within).symm
  rw [lengths.1, lengths.2, link_mem_looseLinks_iff paired ((PlainOpens.congr start).mpr opens)
    ((PlainCloses.congr stop).mpr closes) ((pairsLoosely_congr start stop).trans fits)]
  exact ⟨fun encloses => encloses.congr start.symm within.symm,
    fun encloses => encloses.congr start within⟩

theorem Preparation.offset_opener_iff (opens : PlainOpens opener) (closes : PlainCloses closer)
    (fits : pairsLoosely opener closer = true) :
    opener.offset = inside.length + 1 ↔ Encloses opener inside := by
  have found : (front ++ opener :: (inside ++ closer :: back))[front.length]? = some opener := by
    simp
  rw [← p.link_mem_loose_iff coherent opens closes fits]
  constructor
  · intro offset
    exact p.loose_of_pair coherent ⟨by simp only; omega, opener, found, by simp only; omega⟩ found
      opens
  · intro loose
    obtain ⟨t, here, offset⟩ := (p.linked_prepared coherent).opener _
      (List.mem_append_right _ loose)
    cases found.symm.trans here
    simp only at offset
    omega

end Between

end Pairs

/-- The two ends of a pair point to each other. -/
theorem Matched.offset_closer_iff {front inside back : List Token} {opener closer : Token}
    (matched : Matched (front ++ opener :: (inside ++ closer :: back))) :
    closer.offset = -(inside.length + 1) ↔ opener.offset = inside.length + 1 := by
  have first : (front ++ opener :: (inside ++ closer :: back))[front.length]? = some opener := by
    simp
  have second : (front ++ opener :: (inside ++ closer :: back))[front.length + 1 + inside.length]? =
      some closer := by
    rw [Nat.add_assoc, Nat.add_comm 1, List.getElem?_append_right (by omega),
      Nat.add_sub_cancel_left, List.getElem?_cons_succ, List.getElem?_append_right (Nat.le_refl _),
      Nat.sub_self]
    rfl
  constructor
  · intro offset
    obtain ⟨j, u, position, there, back, _⟩ := matched.partner _ _ second (by omega)
    have same : j = front.length := by omega
    subst same
    cases first.symm.trans there
    omega
  · intro offset
    obtain ⟨j, u, position, there, back, _⟩ := matched.partner _ _ first (by omega)
    have same : j = front.length + 1 + inside.length := by omega
    subst same
    cases second.symm.trans there
    omega

/-- A left and a right fence are partners exactly if the left one encloses what is between them, and
then they are read as one fenced expression. -/
theorem fence_paired_iff {source : String} {front inside back : List Token}
    {opener closer : Token}
    (done : tokenize source = .ok (front ++ opener :: (inside ++ closer :: back)))
    (left : opener.IsFence .left) (right : closer.IsFence .right) :
    (opener.offset = inside.length + 1 ↔ Encloses opener inside) ∧
      (closer.offset = -(inside.length + 1) ↔ Encloses opener inside) ∧
      (Encloses opener inside → Queue.ofTokens (opener :: (inside ++ closer :: back)) =
        ⟨.fenced, opener, inside ++ [closer]⟩ :: Queue.ofTokens back) := by
  obtain ⟨p⟩ := prepare_eq_ok_iff.mp done
  have fits : pairsLoosely opener closer = true := by
    rw [pairsLoosely, left.fence, right.fence]
    rfl
  have offset := p.offset_opener_iff (coherent_lex source) left.opens right.closes fits
  refine ⟨offset, ?_, fun encloses => ?_⟩
  · rw [(matched_of_prepare (coherent_lex source) done).offset_closer_iff, offset]
  · refine Queue.ofTokens_composite left.solid ?_ (offset.mpr encloses)
    rw [Queue.compositeKind?, left.plain.1, left.plain.2, left.fence]
    rfl

theorem fence_paired_iff_brackets :
    ∃ opener inside closer, tokenize "\\left([a]b\\right)" = .ok (opener :: (inside ++ [closer])) ∧
      opener.IsFence .left ∧ closer.IsFence .right ∧ opener.offset = inside.length + 1 := by
  let opener : Token := ⟨{ opens := true, fence := true }, "(", 5⟩
  let bracket : Token := ⟨{ opens := true }, "[", 2⟩
  let counterpart : Token := ⟨{ closes := true }, "]", -2⟩
  let closer : Token := ⟨{ closes := true, fence := true }, ")", -5⟩
  let a : Token := ⟨{ letter := true }, "a", 0⟩
  let b : Token := ⟨{ letter := true }, "b", 0⟩
  have done : tokenize "\\left([a]b\\right)" =
      .ok ([] ++ opener :: (([bracket] ++ [a] ++ [counterpart, b]) ++ closer :: [])) := by cbv
  have left : opener.IsFence .left :=
    ⟨⟨⟨{ opens := true }, "(", 0⟩, rfl, rfl⟩, rfl, rfl⟩
  have right : closer.IsFence .right :=
    ⟨⟨⟨{ closes := true }, ")", 0⟩, rfl, rfl⟩, rfl, rfl⟩
  have encloses : Encloses opener ([bracket] ++ [a] ++ [counterpart, b]) :=
    .pair (by decide) (.pass (by decide) (by decide) .nil) (by decide) rfl
      (.pass (by decide) (by decide) .nil)
  exact ⟨opener, _, closer, done, left, right, (fence_paired_iff done left right).1.mpr encloses⟩

/-- A right parenthesis that nobody opened is taken for the partner of a left fence. -/
theorem fence_taken_by_parenthesis :
    ∃ opener inside closer, tokenize "\\left(a)\\right)" = .ok (opener :: (inside ++ [closer])) ∧
      opener.IsFence .left ∧ closer.IsFence .right ∧
      (∀ t ∈ inside, t.kind.fence = false ∧ t.kind.curly = false ∧ t.kind.env = false) ∧
      opener.offset ≠ inside.length + 1 := by
  refine ⟨⟨{ opens := true, fence := true }, "(", 2⟩,
    [⟨{ letter := true }, "a", 0⟩, ⟨{ closes := true }, ")", -2⟩],
    ⟨{ closes := true, fence := true }, ")", 0⟩, by cbv, ?_, ?_, by decide, by decide⟩
  · exact ⟨⟨⟨{ opens := true }, "(", 0⟩, rfl, rfl⟩, rfl, rfl⟩
  · exact ⟨⟨⟨{ closes := true }, ")", 0⟩, rfl, rfl⟩, rfl, rfl⟩

end TexFormula.Token
