import TexFormula.Proofs.Pairing.Links

/-! What a loose pair encloses. Between an opener and its partner a closer can stay alone, but only
one that does not pair with the last opener before it that is still open; an opener cannot. The
lists of which this holds are defined by their shape (`Encloses`), and loose pairing joins two
delimiters exactly if such a list is between them (`link_mem_looseLinks_iff`). -/
namespace TexFormula.Pairing
open Token

/-- An opener that is paired loosely. -/
def PlainOpens (t : Token) : Prop :=
  t.kind.opens = true ∧ t.kind.curly = false ∧ t.kind.env = false

/-- A closer that is paired loosely. -/
def PlainCloses (t : Token) : Prop :=
  t.kind.opens = false ∧ t.kind.closes = true ∧ t.kind.curly = false ∧ t.kind.env = false

instance : DecidablePred PlainOpens := fun _ => inferInstanceAs (Decidable (_ ∧ _))

instance : DecidablePred PlainCloses := fun _ => inferInstanceAs (Decidable (_ ∧ _))

/-- The lists behind an opener at whose end this opener is the last one that is open. -/
inductive Encloses : Token → List Token → Prop
  | nil {opener : Token} : Encloses opener []
  | pass {opener t : Token} {rest : List Token} (notOpens : ¬ PlainOpens t)
      (notCloses : ¬ PlainCloses t) (more : Encloses opener rest) : Encloses opener (t :: rest)
  | stray {opener t : Token} {rest : List Token} (closes : PlainCloses t)
      (misfits : pairsLoosely opener t = false) (more : Encloses opener rest) :
      Encloses opener (t :: rest)
  | pair {opener t closer : Token} {inner rest : List Token} (opens : PlainOpens t)
      (inside : Encloses t inner) (closes : PlainCloses closer)
      (fits : pairsLoosely t closer = true) (more : Encloses opener rest) :
      Encloses opener (t :: (inner ++ closer :: rest))

/-- A list in which exactly the braces and the delimiters of environments have a partner. -/
def StrictlyPaired (tokens : List Token) : Prop :=
  ∀ t ∈ tokens, t.kind.opens = true ∨ t.kind.closes = true →
    (t.offset = 0 ↔ t.kind.curly = false ∧ t.kind.env = false)

variable {i position : Nat} {opener t : Token} {waiting : Waiting}
  {tokens front inside rest : List Token} {l : Link}

theorem StrictlyPaired.suffix (paired : StrictlyPaired (front ++ tokens)) : StrictlyPaired tokens :=
  fun t member => paired t (List.mem_append_right front member)

theorem StrictlyPaired.tail (paired : StrictlyPaired (t :: rest)) : StrictlyPaired rest :=
  fun u member => paired u (List.mem_cons_of_mem t member)

theorem Below.mono {waiting : List Nat} {j : Nat} (below : Below i waiting) (later : i ≤ j) :
    Below j waiting := by
  obtain ⟨before, sorted⟩ := List.pairwise_cons.mp below
  exact List.pairwise_cons.mpr ⟨fun p member => Nat.lt_of_lt_of_le (before p member) later, sorted⟩

/-! ### One step -/

theorem looseLinks_push (paired : StrictlyPaired (t :: rest)) (opens : PlainOpens t) :
    looseLinks i waiting (t :: rest) = looseLinks (i + 1) ((i, t) :: waiting) rest := by
  have alone : t.offset = 0 := (paired t List.mem_cons_self (.inl opens.1)).mpr opens.2
  rw [looseLinks.eq_def]
  simp only [alone, opens.1, bne_self_eq_false, Bool.false_eq_true, if_false, if_true]

theorem looseLinks_pass (paired : StrictlyPaired (t :: rest)) (notOpens : ¬ PlainOpens t)
    (notCloses : ¬ PlainCloses t) :
    looseLinks i waiting (t :: rest) = looseLinks (i + 1) waiting rest := by
  rw [looseLinks.eq_def]
  simp only
  split
  case isTrue => rfl
  case isFalse alone =>
    have free : t.offset = 0 := by simpa using alone
    have plain := fun side => (paired t List.mem_cons_self side).mp free
    cases opens : t.kind.opens with
    | true => exact absurd ⟨opens, plain (.inl opens)⟩ notOpens
    | false =>
      cases closes : t.kind.closes with
      | true => exact absurd ⟨opens, closes, plain (.inr closes)⟩ notCloses
      | false => rfl

theorem looseLinks_closer (paired : StrictlyPaired (t :: rest)) (closes : PlainCloses t) :
    looseLinks i ((position, opener) :: waiting) (t :: rest) =
      if pairsLoosely opener t then ⟨position, i⟩ :: looseLinks (i + 1) waiting rest
      else looseLinks (i + 1) ((position, opener) :: waiting) rest := by
  have alone : t.offset = 0 := (paired t List.mem_cons_self (.inr closes.2.1)).mpr closes.2.2
  rw [looseLinks.eq_def]
  simp only [alone, closes.1, closes.2.1, bne_self_eq_false, Bool.false_eq_true, Bool.not_true,
    if_false]

theorem looseLinks_lone (paired : StrictlyPaired (t :: rest)) (closes : PlainCloses t) :
    looseLinks i [] (t :: rest) = looseLinks (i + 1) [] rest := by
  have alone : t.offset = 0 := (paired t List.mem_cons_self (.inr closes.2.1)).mpr closes.2.2
  rw [looseLinks.eq_def]
  simp only [alone, closes.1, closes.2.1, bne_self_eq_false, Bool.false_eq_true, Bool.not_true,
    if_false]

/-! ### Enclosed lists -/

/-- An enclosed list leaves open what was open. -/
theorem looseLinks_enclosed (encloses : Encloses opener inside)
    (paired : StrictlyPaired (inside ++ rest)) :
    ∃ links, looseLinks i ((position, opener) :: waiting) (inside ++ rest) =
      links ++ looseLinks (i + inside.length) ((position, opener) :: waiting) rest := by
  induction encloses generalizing i position waiting rest with
  | nil => exact ⟨[], rfl⟩
  | @pass opener t inside notOpens notCloses _ ih =>
    have paired : StrictlyPaired (t :: (inside ++ rest)) := paired
    obtain ⟨links, same⟩ := @ih (i + 1) position waiting rest paired.tail
    refine ⟨links, ?_⟩
    rw [List.cons_append, looseLinks_pass paired notOpens notCloses, same, List.length_cons,
      Nat.add_right_comm, Nat.add_assoc]
  | @stray opener t inside closes misfits _ ih =>
    have paired : StrictlyPaired (t :: (inside ++ rest)) := paired
    obtain ⟨links, same⟩ := @ih (i + 1) position waiting rest paired.tail
    refine ⟨links, ?_⟩
    rw [List.cons_append, looseLinks_closer paired closes, misfits, if_neg Bool.false_ne_true, same,
      List.length_cons, Nat.add_right_comm, Nat.add_assoc]
  | @pair opener t closer inner inside opens _ closes fits _ ih ih' =>
    have behind : StrictlyPaired (inner ++ closer :: (inside ++ rest)) := by
      simpa using paired.tail
    obtain ⟨links, same⟩ := @ih (i + 1) i ((position, opener) :: waiting) _ behind
    obtain ⟨links', same'⟩ := @ih' (i + 1 + inner.length + 1) position waiting _ behind.suffix.tail
    refine ⟨links ++ ⟨i, i + 1 + inner.length⟩ :: links', ?_⟩
    have split : t :: (inner ++ closer :: inside) ++ rest =
        t :: (inner ++ closer :: (inside ++ rest)) := by simp
    have length : i + (t :: (inner ++ closer :: inside)).length =
        i + 1 + inner.length + 1 + inside.length := by
      rw [List.length_cons, List.length_append, List.length_cons]
      omega
    rw [split] at paired ⊢
    rw [looseLinks_push paired opens, same, looseLinks_closer behind.suffix closes, if_pos fits,
      same', length, List.append_assoc, List.cons_append]

/-- A link that starts at a waiting opener ends behind what the last of these encloses: there, or
further on. -/
theorem encloses_of_link {i position : Nat} {opener : Token} {waiting : Waiting}
    {tokens : List Token} (paired : StrictlyPaired tokens)
    (below : Below i (((position, opener) :: waiting).map Prod.fst))
    (member : l ∈ looseLinks i ((position, opener) :: waiting) tokens)
    (early : l.opener ∈ ((position, opener) :: waiting).map Prod.fst) :
    ∃ inner closer rest, tokens = inner ++ closer :: rest ∧ Encloses opener inner ∧
      PlainCloses closer ∧ pairsLoosely opener closer = true ∧ (l = ⟨position, i + inner.length⟩ ∨
          l ∈ looseLinks (i + inner.length + 1) waiting rest) := by
  match tokens with
  | [] => cases member
  | t :: rest =>
    by_cases opens : PlainOpens t
    · -- The opener that comes here is closed first.
      rw [looseLinks_push paired opens] at member
      have lower : l.opener < i := (List.pairwise_cons.mp below).1 _ early
      obtain ⟨inner, closer, middle, split, within, closes, fits, ends⟩ :=
        @encloses_of_link (i + 1) i t ((position, opener) :: waiting) rest paired.tail below.push
          member (List.mem_cons_of_mem _ early)
      subst split
      have later : l ∈ looseLinks (i + 1 + inner.length + 1) ((position, opener) :: waiting)
          middle := by
        rcases ends with rfl | later
        · exact absurd lower (Nat.lt_irrefl i)
        · exact later
      -- Behind its partner the same openers wait as before it.
      obtain ⟨more, last, behind, rfl, among, closes', fits', ends'⟩ :=
        encloses_of_link paired.tail.suffix.tail (below.mono (by omega)) later early
      refine ⟨t :: (inner ++ closer :: more), last, behind, by simp,
        .pair opens within closes fits among, closes', fits', ?_⟩
      have length : i + 1 + inner.length + 1 + more.length =
          i + (t :: (inner ++ closer :: more)).length := by
        rw [List.length_cons, List.length_append, List.length_cons]
        omega
      rw [← length]
      exact ends'
    · by_cases closes : PlainCloses t
      · rw [looseLinks_closer paired closes] at member
        split at member
        case isTrue fits =>
          exact ⟨[], t, rest, rfl, .nil, closes, fits, List.mem_cons.mp member⟩
        case isFalse misfits =>
          obtain ⟨inner, closer, behind, rfl, encloses, closes', fits, ends⟩ :=
            encloses_of_link paired.tail below.step member early
          refine ⟨t :: inner, closer, behind, rfl,
            .stray closes (by simpa using misfits) encloses, closes', fits, ?_⟩
          rw [List.length_cons, Nat.add_comm inner.length, ← Nat.add_assoc]
          exact ends
      · rw [looseLinks_pass paired opens closes] at member
        obtain ⟨inner, closer, behind, rfl, encloses, closes', fits, ends⟩ :=
          encloses_of_link paired.tail below.step member early
        refine ⟨t :: inner, closer, behind, rfl, .pass opens closes encloses, closes', fits, ?_⟩
        rw [List.length_cons, Nat.add_comm inner.length, ← Nat.add_assoc]
        exact ends
termination_by tokens.length

/-- The front of a list is read before the rest, which finds some openers waiting. -/
theorem looseLinks_append (paired : StrictlyPaired (front ++ rest))
    (below : Below i (waiting.map Prod.fst)) :
    ∃ links left, looseLinks i waiting (front ++ rest) =
        links ++ looseLinks (i + front.length) left rest ∧
      Below (i + front.length) (left.map Prod.fst) ∧ ∀ l ∈ links, l.closer < i + front.length := by
  induction front generalizing i waiting with
  | nil => exact ⟨[], waiting, rfl, below, List.forall_mem_nil _⟩
  | cons t front ih =>
    have next : i + 1 + front.length = i + (t :: front).length := by
      rw [List.length_cons]
      omega
    have step : ∀ waiting : Waiting, Below (i + 1) (waiting.map Prod.fst) →
        ∃ links left, looseLinks (i + 1) waiting (front ++ rest) =
            links ++ looseLinks (i + (t :: front).length) left rest ∧
          Below (i + (t :: front).length) (left.map Prod.fst) ∧
          ∀ l ∈ links, l.closer < i + (t :: front).length :=
      fun waiting below => next ▸ ih paired.tail below
    have paired : StrictlyPaired (t :: (front ++ rest)) := paired
    rw [List.cons_append]
    by_cases opens : PlainOpens t
    · rw [looseLinks_push paired opens]
      exact step _ below.push
    · by_cases closes : PlainCloses t
      · cases waiting with
        | nil =>
          rw [looseLinks_lone paired closes]
          exact step _ below.step
        | cons top waiting =>
          obtain ⟨links, left, same, below', early⟩ := step waiting below.pop.step
          rw [looseLinks_closer paired closes]
          split
          · refine ⟨⟨top.1, i⟩ :: links, left, by rw [same, List.cons_append], below', ?_⟩
            exact List.forall_mem_cons.mpr ⟨by simp only [List.length_cons]; omega, early⟩
          · exact step _ below.step
      · rw [looseLinks_pass paired opens closes]
        exact step _ below.step

/-- A link that starts at an opener joins it with a closer that fits, and what is between them is
enclosed. -/
theorem encloses_of_opener (paired : StrictlyPaired (front ++ opener :: rest))
    (opens : PlainOpens opener) (member : l ∈ looseLinks 0 [] (front ++ opener :: rest))
    (start : l.opener = front.length) :
    ∃ inside closer back, rest = inside ++ closer :: back ∧ Encloses opener inside ∧
      PlainCloses closer ∧ pairsLoosely opener closer = true ∧
      l.closer = front.length + 1 + inside.length := by
  have forward := (looseLinks_scan 0 [] _).layout.forward l member
  obtain ⟨links, left, same, below, early⟩ := @looseLinks_append 0 [] _ _ paired (below_nil 0)
  rw [same, looseLinks_push paired.suffix opens, Nat.zero_add] at member
  rw [Nat.zero_add] at below early
  have later := (List.mem_append.mp member).resolve_left fun before => by
    have ends := early _ before
    omega
  obtain ⟨inside, closer, back, split, encloses, closes, fits, ends⟩ :=
    encloses_of_link paired.suffix.tail below.push later (start ▸ List.mem_cons_self)
  refine ⟨inside, closer, back, split, encloses, closes, fits, ?_⟩
  rcases ends with rfl | further
  · rfl
  · -- The opener waits no longer, so no further link can start there.
    obtain ⟨_, waits | late⟩ := (looseLinks_scan _ left back).bounds _ further
    · exact absurd ((List.pairwise_cons.mp below).1 _ waits) (by omega)
    · omega

/-- Two delimiters that fit are joined exactly if what is between them is enclosed. -/
theorem link_mem_looseLinks_iff {closer : Token}
    (paired : StrictlyPaired (front ++ opener :: (inside ++ closer :: rest)))
    (opens : PlainOpens opener) (closes : PlainCloses closer)
    (fits : pairsLoosely opener closer = true) :
    ⟨front.length, front.length + 1 + inside.length⟩ ∈
        looseLinks 0 [] (front ++ opener :: (inside ++ closer :: rest)) ↔
      Encloses opener inside := by
  constructor
  · intro member
    obtain ⟨inner, last, more, split, encloses, _, _, ends⟩ :=
      encloses_of_opener paired opens member rfl
    have length : inside.length = inner.length := by
      simp only at ends
      omega
    exact (List.append_inj split length).1 ▸ encloses
  · intro encloses
    have behind : StrictlyPaired (inside ++ closer :: rest) := paired.suffix.tail
    obtain ⟨links, left, same, _, _⟩ := @looseLinks_append 0 [] _ _ paired (below_nil 0)
    obtain ⟨links', same'⟩ := looseLinks_enclosed encloses behind
    rw [same, looseLinks_push paired.suffix opens, Nat.zero_add, same',
      looseLinks_closer behind.suffix closes, if_pos fits]
    exact List.mem_append_right _ (List.mem_append_right _ List.mem_cons_self)

/-! ### Partners do not matter -/

section Unpaired

variable {u other closer : Token}

theorem PlainOpens.congr (same : u.unpaired = t.unpaired) : PlainOpens u ↔ PlainOpens t := by
  change PlainOpens u.unpaired ↔ PlainOpens t.unpaired
  rw [same]

theorem PlainCloses.congr (same : u.unpaired = t.unpaired) : PlainCloses u ↔ PlainCloses t := by
  change PlainCloses u.unpaired ↔ PlainCloses t.unpaired
  rw [same]

theorem pairsLoosely_congr (left : other.unpaired = opener.unpaired)
    (right : u.unpaired = t.unpaired) : pairsLoosely other u = pairsLoosely opener t := by
  change pairsLoosely other.unpaired u.unpaired = pairsLoosely opener.unpaired t.unpaired
  rw [left, right]

/-- What an opener encloses is enclosed with any partners. -/
theorem Encloses.congr {others : List Token} (encloses : Encloses opener inside)
    (alike : other.unpaired = opener.unpaired)
    (same : others.map Token.unpaired = inside.map Token.unpaired) : Encloses other others := by
  induction encloses generalizing other others with
  | nil =>
    rw [List.map_eq_nil_iff.mp same]
    exact .nil
  | pass notOpens notCloses _ ih =>
    obtain ⟨u, rest, rfl, here, later⟩ := List.map_eq_cons_iff.mp same
    exact .pass (mt (PlainOpens.congr here).mp notOpens) (mt (PlainCloses.congr here).mp notCloses)
      (ih alike later)
  | stray closes misfits _ ih =>
    obtain ⟨u, rest, rfl, here, later⟩ := List.map_eq_cons_iff.mp same
    exact .stray ((PlainCloses.congr here).mpr closes)
      ((pairsLoosely_congr alike here).trans misfits) (ih alike later)
  | pair opens _ closes fits _ ih ih' =>
    obtain ⟨u, rest, rfl, here, later⟩ := List.map_eq_cons_iff.mp same
    rw [List.map_append, List.map_cons] at later
    obtain ⟨inner, rest, rfl, within, later⟩ := List.map_eq_append_iff.mp later
    obtain ⟨v, rest, rfl, there, later⟩ := List.map_eq_cons_iff.mp later
    exact .pair ((PlainOpens.congr here).mpr opens) (ih here within)
      ((PlainCloses.congr there).mpr closes) ((pairsLoosely_congr here there).trans fits)
      (ih' alike later)

end Unpaired

end TexFormula.Pairing
