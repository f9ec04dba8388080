import TexFormula.Proofs.Pairing.Reading

/-! Slices of a reading. A piece of a list spells a nested word by itself if every link of the whole
list has both its ends in the piece or both outside. -/
namespace TexFormula.Pairing

/-- Whether a position is in the piece of length `n` that starts at `start`. -/
def Inside (start n position : Nat) : Prop :=
  start ≤ position ∧ position < start + n

variable {mark : Token → Option Mark} {i : Nat} {waiting outer : List (Nat × Bracket)}
  {tokens middle after : List Token} {links : List Link}

theorem Reads.closer_lt (reads : Reads mark i waiting tokens links) :
    ∀ l ∈ links, l.closer < i + tokens.length := by
  induction reads with
  | done => simp
  | pass _ _ ih | push _ _ ih =>
    intro l member
    have early := ih l member
    rw [List.length_cons]
    omega
  | join _ _ ih =>
    intro l member
    rw [List.length_cons]
    rcases List.mem_cons.mp member with rfl | member
    · simp only
      omega
    · have early := ih l member
      omega

/-- A reading of a piece and one of what follows make up a reading of both. -/
theorem Reads.append {more : List Link} (reads : Reads mark i waiting tokens links)
    (rest : Reads mark (i + tokens.length) outer after more) :
    Reads mark i (waiting ++ outer) (tokens ++ after) (links ++ more) := by
  induction reads with
  | done => exact rest
  | @pass i waiting t tokens links plain _ ih =>
    rw [List.length_cons, Nat.add_comm tokens.length, ← Nat.add_assoc] at rest
    exact .pass plain (ih rest)
  | @push i waiting t tokens links b opens _ ih =>
    rw [List.length_cons, Nat.add_comm tokens.length, ← Nat.add_assoc] at rest
    exact .push opens (ih rest)
  | @join i waiting t tokens links position b closes _ ih =>
    rw [List.length_cons, Nat.add_comm tokens.length, ← Nat.add_assoc] at rest
    exact .join closes (ih rest)

/-- A reading that starts inside a piece stays with what was opened there, as long as no link leads
from outside into the piece or back. -/
theorem Reads.piece (reads : Reads mark i (waiting ++ outer) (middle ++ after) links)
    (inward : ∀ l ∈ links, l.opener ∈ outer.map Prod.fst → i + middle.length ≤ l.closer)
    (outward : ∀ l ∈ links, l.opener ∈ waiting.map Prod.fst ∨ Inside i middle.length l.opener →
      l.closer < i + middle.length) : ∃ own, Reads mark i waiting middle own := by
  induction middle generalizing i waiting links with
  | nil =>
    cases waiting with
    | nil => exact ⟨[], .done⟩
    | cons entry below =>
      -- The bracket on top is closed behind the piece, although it was opened in it.
      obtain ⟨l, member, opener⟩ := reads.covers.1 entry (by simp)
      have early := outward l member (.inl (by simp [opener]))
      have late := (reads.scan.bounds l member).1
      rw [List.length_nil] at early
      omega
  | cons t middle ih =>
    have shift : i + (t :: middle).length = i + 1 + middle.length := by
      rw [List.length_cons]
      omega
    rw [shift] at inward
    have outward : ∀ l ∈ links,
        l.opener ∈ waiting.map Prod.fst ∨ l.opener = i ∨ Inside (i + 1) middle.length l.opener →
          l.closer < i + 1 + middle.length := by
      intro l member start
      rw [← shift]
      refine outward l member (start.imp_right fun here => ?_)
      rcases here with rfl | here
      · exact ⟨Nat.le_refl _, by rw [shift]; omega⟩
      · exact ⟨by have := here.1; omega, by rw [shift]; exact here.2⟩
    rw [List.cons_append] at reads
    cases marked : mark t with
    | none =>
      obtain ⟨own, piece⟩ := ih ((reads_of_none marked).mp reads) inward fun l member start =>
        outward l member (start.imp_right .inr)
      exact ⟨own, .pass marked piece⟩
    | some m =>
      cases m with
      | opens b =>
        have more := (reads_of_opens marked).mp reads
        rw [← List.cons_append] at more
        obtain ⟨own, piece⟩ := ih more inward fun l member start => by
          refine outward l member ?_
          rcases start with start | start
          · rcases List.mem_cons.mp start with here | start
            · exact .inr (.inl here)
            · exact .inl start
          · exact .inr (.inr start)
        exact ⟨own, .push marked piece⟩
      | closes b =>
        obtain ⟨position, below, more, split, tail, rfl⟩ := (reads_of_closes marked).mp reads
        cases waiting with
        | nil =>
          have late := inward _ List.mem_cons_self (by simp [show outer = _ from split])
          simp only at late
          omega
        | cons entry waiting =>
          cases split
          obtain ⟨own, piece⟩ := ih tail (fun l member => inward l (List.mem_cons_of_mem _ member))
            fun l member start => by
              refine outward l (List.mem_cons_of_mem _ member) ?_
              rcases start with start | start
              · exact .inl (List.mem_cons_of_mem _ start)
              · exact .inr (.inr start)
          exact ⟨_, .join marked piece⟩

/-- A piece of a list is nested by itself if no link leads into it or out of it. -/
theorem Reads.nested_iff_closed {before : List Token}
    (reads : Reads mark 0 [] (before ++ (middle ++ after)) links) :
    Nested (wordOf mark middle) ↔
      ∀ l ∈ links, Inside before.length middle.length l.opener ↔
        Inside before.length middle.length l.closer := by
  obtain ⟨outer, first, more, rfl, early, below, rest⟩ := reads.behind (below_nil 0)
  have forward := reads.scan.forward (below_nil 0)
  rw [Nat.zero_add] at early below rest
  have outside : ∀ p ∈ outer.map Prod.fst, p < before.length :=
    (List.pairwise_cons.mp below).1
  constructor
  · intro nested
    obtain ⟨own, piece⟩ := (reads_iff_nested (i := before.length)).mpr nested
    have settles := rest.settles
    rw [wordOf_append, settles_append nested] at settles
    obtain ⟨last, tail⟩ := reads_of_settles (i := before.length + middle.length) settles
    cases (piece.append tail).unique rest
    intro l member
    have forth := forward l member
    rcases List.mem_append.mp member with member | member
    · have bound := early l member
      unfold Inside
      omega
    · rcases List.mem_append.mp member with member | member
      · have bound := piece.closer_lt l member
        obtain ⟨late, start⟩ := piece.scan.bounds l member
        have start : before.length ≤ l.opener := start.resolve_left (by simp)
        unfold Inside
        omega
      · obtain ⟨late, start⟩ := tail.scan.bounds l member
        have start : l.opener < before.length ∨ before.length + middle.length ≤ l.opener :=
          start.imp_left (outside _)
        unfold Inside
        omega
  · intro closed
    have bounds := rest.scan.bounds
    refine (reads_iff_nested (i := before.length)).mp (rest.piece ?_ ?_)
    · intro l member start
      have whole := closed l (List.mem_append_right first member)
      have late := (bounds l member).1
      have low := outside _ start
      unfold Inside at whole
      omega
    · intro l member start
      have whole := closed l (List.mem_append_right first member)
      have start : Inside before.length middle.length l.opener := start.resolve_left (by simp)
      exact (whole.mp start).2

end TexFormula.Pairing
