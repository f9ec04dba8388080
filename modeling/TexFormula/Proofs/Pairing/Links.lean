import TexFormula.Token.Pairing

/-! Links found by a stack. Every pairing of delimiters is a scan: it pushes the positions of
openers on a stack and joins a closer with the position on top. Whatever a scan pushes and joins, no
two of its links share an end or cross. -/
namespace TexFormula.Pairing

/-- A scan of the tokens from position `i` on, with the positions of the openers that wait. Tokens
can be passed by; which of them may be pushed and which of them may be joined is left to the two
predicates. -/
inductive Scan (Opens Closes : Token → Prop) : Nat → List Nat → List Token → List Link → Prop
  | done {i waiting} : Scan Opens Closes i waiting [] []
  | pass {i waiting t rest links} (more : Scan Opens Closes (i + 1) waiting rest links) :
    Scan Opens Closes i waiting (t :: rest) links
  | push {i waiting t rest links} (opens : Opens t)
    (more : Scan Opens Closes (i + 1) (i :: waiting) rest links) :
    Scan Opens Closes i waiting (t :: rest) links
  | join {i waiting t rest links position} (closes : Closes t)
    (more : Scan Opens Closes (i + 1) waiting rest links) :
    Scan Opens Closes i (position :: waiting) (t :: rest) (⟨position, i⟩ :: links)

/-- Two links of which the second ends later, and starts either before the first or behind it. -/
def Link.Apart (first second : Link) : Prop :=
  first.closer < second.closer ∧
    (second.opener < first.opener ∨ first.closer < second.opener)

/-- Links inside a token list of which no two share an end or cross. -/
structure Layout (Opens Closes : Token → Prop) (tokens : List Token) (links : List Link) :
    Prop where
  apart : links.Pairwise Link.Apart
  forward : ∀ l ∈ links, l.opener < l.closer
  opener : ∀ l ∈ links, ∃ t, tokens[l.opener]? = some t ∧ Opens t
  closer : ∀ l ∈ links, ∃ t, tokens[l.closer]? = some t ∧ Closes t

/-- The waiting positions are before position `i`, the last one first. -/
def Below (i : Nat) (waiting : List Nat) : Prop :=
  (i :: waiting).Pairwise (· > ·)

variable {Opens Closes : Token → Prop} {i : Nat} {waiting : List Nat} {tokens : List Token}
  {links : List Link}

theorem below_nil (i : Nat) : Below i [] :=
  List.pairwise_singleton _ _

theorem Below.step (below : Below i waiting) : Below (i + 1) waiting := by
  obtain ⟨before, sorted⟩ := List.pairwise_cons.mp below
  exact List.pairwise_cons.mpr ⟨fun p member => Nat.lt_succ_of_lt (before p member), sorted⟩

theorem Below.push (below : Below i waiting) : Below (i + 1) (i :: waiting) := by
  obtain ⟨before, _⟩ := List.pairwise_cons.mp below
  refine List.pairwise_cons.mpr ⟨fun p member => ?_, below⟩
  rcases List.mem_cons.mp member with rfl | member
  · exact Nat.lt_succ_self p
  · exact Nat.lt_succ_of_lt (before p member)

theorem Below.pop {position : Nat} (below : Below i (position :: waiting)) : Below i waiting := by
  obtain ⟨before, sorted⟩ := List.pairwise_cons.mp below
  exact List.pairwise_cons.mpr
    ⟨fun p member => before p (List.mem_cons_of_mem _ member), (List.pairwise_cons.mp sorted).2⟩

/-- What waits is known by its position. -/
theorem Below.unique {α : Type} {waiting : List (Nat × α)} (below : Below i (waiting.map Prod.fst))
    {v w : Nat × α} (left : v ∈ waiting) (right : w ∈ waiting) (same : v.1 = w.1) : v = w := by
  induction waiting with
  | nil => cases left
  | cons entry rest ih =>
    have lower : ∀ w ∈ rest, w.1 < entry.1 := fun w member =>
      (List.pairwise_cons.mp (List.pairwise_cons.mp below).2).1 w.1 (List.mem_map_of_mem member)
    rcases List.mem_cons.mp left with top | deep <;> rcases List.mem_cons.mp right with top' | deep'
    · rw [top, top']
    · exact absurd (lower w deep') (by rw [← same, top]; omega)
    · exact absurd (lower v deep) (by rw [same, top']; omega)
    · exact ih below.pop deep deep'

/-- A scan joins what waits or comes with what comes. -/
theorem Scan.bounds (scan : Scan Opens Closes i waiting tokens links) :
    ∀ l ∈ links, i ≤ l.closer ∧ (l.opener ∈ waiting ∨ i ≤ l.opener) := by
  induction scan with
  | done => simp
  | pass _ ih =>
    intro l member
    obtain ⟨late, start⟩ := ih l member
    exact ⟨by omega, start.imp_right (by omega)⟩
  | push _ _ ih =>
    intro l member
    obtain ⟨late, start⟩ := ih l member
    refine ⟨by omega, ?_⟩
    rcases start with start | start
    · rcases List.mem_cons.mp start with here | start
      · exact .inr (Nat.le_of_eq here.symm)
      · exact .inl start
    · exact .inr (by omega)
  | join _ _ ih =>
    intro l member
    rcases List.mem_cons.mp member with rfl | member
    · exact ⟨Nat.le_refl _, .inl List.mem_cons_self⟩
    · obtain ⟨late, start⟩ := ih l member
      exact ⟨by omega, start.imp (List.mem_cons_of_mem _) (by omega)⟩

/-- The links of a scan never cross: a link that ends later starts at an opener that is further down
the stack or still to come. -/
theorem Scan.apart (scan : Scan Opens Closes i waiting tokens links) (below : Below i waiting) :
    links.Pairwise Link.Apart := by
  induction scan with
  | done => exact .nil
  | pass _ ih => exact ih below.step
  | push _ _ ih => exact ih below.push
  | join _ more ih =>
    refine List.pairwise_cons.mpr ⟨fun l member => ?_, ih below.pop.step⟩
    obtain ⟨late, start⟩ := more.bounds l member
    refine ⟨late, ?_⟩
    rcases start with start | start
    · have sorted := (List.pairwise_cons.mp below).2
      exact .inl ((List.pairwise_cons.mp sorted).1 _ start)
    · exact .inr start

theorem Scan.forward (scan : Scan Opens Closes i waiting tokens links) (below : Below i waiting) :
    ∀ l ∈ links, l.opener < l.closer := by
  induction scan with
  | done => simp
  | pass _ ih => exact ih below.step
  | push _ _ ih => exact ih below.push
  | join _ _ ih =>
    intro l member
    rcases List.mem_cons.mp member with rfl | member
    · exact (List.pairwise_cons.mp below).1 _ List.mem_cons_self
    · exact ih below.pop.step l member

/-- The token at a position, and the tokens behind it. -/
theorem next_of_drop {all rest : List Token} {t : Token} (here : all.drop i = t :: rest) :
    all[i]? = some t ∧ all.drop (i + 1) = rest := by
  refine ⟨?_, by rw [← List.tail_drop, here, List.tail_cons]⟩
  rw [← List.head?_drop, here, List.head?_cons]

/-- The ends of a link carry the tokens that the scan pushed and joined there. -/
theorem Scan.ends (scan : Scan Opens Closes i waiting tokens links) (all : List Token)
    (here : all.drop i = tokens) (known : ∀ p ∈ waiting, ∃ t, all[p]? = some t ∧ Opens t) :
    ∀ l ∈ links, (∃ t, all[l.opener]? = some t ∧ Opens t) ∧
      ∃ t, all[l.closer]? = some t ∧ Closes t := by
  induction scan with
  | done => simp
  | pass _ ih => exact ih (next_of_drop here).2 known
  | push opens _ ih =>
    refine ih (next_of_drop here).2 fun p member => ?_
    rcases List.mem_cons.mp member with rfl | member
    · exact ⟨_, (next_of_drop here).1, opens⟩
    · exact known p member
  | join closes _ ih =>
    intro l member
    rcases List.mem_cons.mp member with rfl | member
    · exact ⟨known _ List.mem_cons_self, _, (next_of_drop here).1, closes⟩
    · have deeper := fun p waits => known p (List.mem_cons_of_mem _ waits)
      exact ih (next_of_drop here).2 deeper l member

/-- A scan of a whole list, started with nothing waiting, lays its links out in the list. -/
theorem Scan.layout (scan : Scan Opens Closes 0 [] tokens links) :
    Layout Opens Closes tokens links := by
  have ends := scan.ends tokens rfl (by simp)
  exact ⟨scan.apart (below_nil 0), scan.forward (below_nil 0), fun l member => (ends l member).1,
    fun l member => (ends l member).2⟩

/-- At each end of a link stands a token that was pushed or joined. -/
theorem Layout.of_end (layout : Layout Opens Closes tokens links) {l : Link} (member : l ∈ links)
    (ends : l.opener = i ∨ l.closer = i) : ∃ t, tokens[i]? = some t ∧ (Opens t ∨ Closes t) := by
  rcases ends with rfl | rfl
  · obtain ⟨t, found, opens⟩ := layout.opener l member
    exact ⟨t, found, .inl opens⟩
  · obtain ⟨t, found, closes⟩ := layout.closer l member
    exact ⟨t, found, .inr closes⟩

/-! ### Loose pairing as a scan

It looks at the tokens without a partner only, and what does not fit is passed by. -/

/-- An opener without a partner. -/
def LooseOpens (t : Token) : Prop :=
  t.offset = 0 ∧ t.kind.opens = true

/-- A closer without a partner. -/
def LooseCloses (t : Token) : Prop :=
  t.offset = 0 ∧ t.kind.opens = false ∧ t.kind.closes = true

theorem looseLinks_scan (i : Nat) (waiting : Waiting) (tokens : List Token) :
    Scan LooseOpens LooseCloses i (waiting.map Prod.fst) tokens (looseLinks i waiting tokens) := by
  fun_induction looseLinks i waiting tokens with
  | case1 => exact .done
  | case2 i waiting t rest paired ih => exact .pass ih
  | case3 i waiting t rest alone opens ih => exact .push ⟨by simpa using alone, opens⟩ ih
  | case4 i waiting t rest alone notOpens notCloses ih => exact .pass ih
  | case5 i t rest alone notOpens closes ih => exact .pass ih
  | case6 i t rest alone notOpens closes position opener below fits ih =>
    exact .join ⟨by simpa using alone, by simpa using notOpens, by simpa using closes⟩ ih
  | case7 i t rest alone notOpens closes position opener below misfits ih => exact .pass ih

end TexFormula.Pairing
