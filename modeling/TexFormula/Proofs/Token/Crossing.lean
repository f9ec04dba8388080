import Mathlib
import TexFormula.Proofs.Pairing.Enclosure
import TexFormula.Proofs.Pairing.Slices
import TexFormula.Proofs.Token.Acceptance

/-! Crossing pairs. Braces and environments form one nested structure, and so do the pairs found
loosely, but a loose pair can have a brace inside it whose partner is outside. Loose pairing looks
at the delimiters without a partner only, and does not see that it leads across a group. It crosses
none if the braces and environments between the two are nested by themselves. -/
namespace TexFormula
open Pairing

/-- How two links lie that do not cross, if the first of them starts first. -/
def Pairing.Link.Fits (first second : Link) : Prop :=
  first.closer < second.opener ∨ second.closer < first.closer

theorem Pairing.Layout.fits {Opens Closes : Token → Prop} {tokens : List Token} {links : List Link}
    (layout : Layout Opens Closes tokens links) {first second : Link} (left : first ∈ links)
    (right : second ∈ links) (order : first.opener < second.opener) : first.Fits second := by
  obtain ⟨i, inside, rfl⟩ := List.getElem_of_mem left
  obtain ⟨j, inside', rfl⟩ := List.getElem_of_mem right
  have apart := List.pairwise_iff_getElem.mp layout.apart
  rcases Nat.lt_trichotomy i j with before | rfl | behind
  · have ends := apart i j inside inside' before
    unfold Link.Apart at ends
    unfold Link.Fits
    omega
  · omega
  · have ends := apart j i inside' inside behind
    unfold Link.Apart at ends
    unfold Link.Fits
    omega

namespace Token

/-- A token with its partner to the right of it. -/
def Pair (tokens : List Token) (l : Link) : Prop :=
  l.opener < l.closer ∧ ∃ t, tokens[l.opener]? = some t ∧ t.offset = l.closer - l.opener

/-- A pair of braces, or the begin and the end of an environment. -/
def StrictPair (tokens : List Token) (l : Link) : Prop :=
  ∃ t, tokens[l.opener]? = some t ∧ (t.kind.curly = true ∨ t.kind.env = true)

/-- The tokens between the ends of a link. -/
def between (tokens : List Token) (l : Link) : List Token :=
  (tokens.take l.closer).drop (l.opener + 1)

theorem pair_iff_of_linked {tokens : List Token} {links : List Link} (linked : Linked tokens links)
    (l : Link) : Pair tokens l ↔ l ∈ links := by
  constructor
  · rintro ⟨forward, t, found, offset⟩
    obtain ⟨other, member, ends⟩ := linked.only l.opener t found (by omega)
    have forth := linked.forward other member
    rcases ends with starts | stops
    · obtain ⟨u, atOpener, offset'⟩ := linked.opener other member
      rw [starts] at atOpener
      cases found.symm.trans atOpener
      have same : other = l := by
        cases other
        cases l
        simp only at starts offset offset'
        subst starts
        congr
        omega
      rwa [← same]
    · obtain ⟨u, atCloser, offset'⟩ := linked.closer other member
      rw [stops] at atCloser
      cases found.symm.trans atCloser
      omega
  · intro member
    obtain ⟨t, found, offset⟩ := linked.opener l member
    exact ⟨linked.forward l member, t, found, offset⟩

/-- A list is its front with an opener, what is between the opener and its partner, and the rest. -/
theorem take_append_between {tokens : List Token} {l : Link} (forward : l.opener < l.closer) :
    tokens.take (l.opener + 1) ++ (between tokens l ++ tokens.drop l.closer) = tokens := by
  have front : tokens.take (l.opener + 1) = (tokens.take l.closer).take (l.opener + 1) := by
    rw [List.take_take, Nat.min_eq_left (by omega)]
  rw [front, between, ← List.append_assoc, List.take_append_drop, List.take_append_drop]

theorem length_between {tokens : List Token} {l : Link} (inside : l.closer < tokens.length) :
    (between tokens l).length = l.closer - (l.opener + 1) := by
  rw [between, List.length_drop, List.length_take]
  omega

theorem strictMark?_ne_none {t : Token} (delimits : t.kind.curly = true ∨ t.kind.env = true)
    (side : t.kind.opens = true ∨ t.kind.closes = true) : strictMark? t ≠ none := by
  unfold strictMark?
  have delimits : (t.kind.curly || t.kind.env) = true := by simpa using delimits
  rw [if_pos delimits]
  cases opens : t.kind.opens with
  | true => simp
  | false => simpa [opens] using side

theorem delimits_of_strictMark? {t : Token} (marked : strictMark? t ≠ none) :
    t.kind.curly = true ∨ t.kind.env = true := by
  unfold strictMark? at marked
  split at marked
  case isTrue delimits => simpa using delimits
  case isFalse => exact absurd rfl marked

theorem delimits_of_reads {tokens : List Token} {links : List Link}
    (reads : Reads strictMark? 0 [] tokens links) {l : Link} (member : l ∈ links) {i : Nat}
    (ends : l.opener = i ∨ l.closer = i) {t : Token} (found : tokens[i]? = some t) :
    t.kind.curly = true ∨ t.kind.env = true := by
  obtain ⟨u, here, marked⟩ := reads.scan.layout.of_end member ends
  cases found.symm.trans here
  apply delimits_of_strictMark?
  rcases marked with ⟨b, opens⟩ | ⟨b, closes⟩
  · simp [opens]
  · simp [closes]

namespace Preparation

variable {tokens prepared : List Token} (p : Preparation tokens prepared)
  (coherent : ∀ t ∈ tokens, t.kind.Coherent)

include p coherent

/-- The strict pairs are those of one reading of all strict delimiters. -/
theorem reads_joined {others : List Token}
    (same : others.map unpaired = p.collapsed.map unpaired) :
    ∃ joined, Reads strictMark? 0 [] others joined ∧
      ∀ l, l ∈ joined ↔ l ∈ p.environments ++ p.curlies := by
  have nested := (strict_passes_iff_nested (p.fresh_collapsed coherent)).mp
    ⟨p.environments, p.curlies, p.environments_found, p.curlies_found, p.uncrossed⟩
  obtain ⟨joined, reads⟩ := (reads_iff_nested (i := 0)).mpr nested
  obtain ⟨own, each, together⟩ :=
    reads.families fun t member => (p.fresh_collapsed coherent t member).1
  have marks : others.map strictMark? = p.collapsed.map strictMark? :=
    map_eq_of_map_unpaired strictMark?_unpaired same
  refine ⟨joined, reads.congr marks, fun l => ?_⟩
  have known : ∀ f : Family, own f = p.strict f := fun f => (p.reads_strict f rfl).unique (each f)
  rw [together, List.mem_append]
  constructor
  · rintro ⟨f, member⟩
    rw [known] at member
    cases f with
    | curly => exact .inr member
    | environment => exact .inl member
  · rintro (member | member)
    · exact ⟨.environment, (known .environment).symm ▸ member⟩
    · exact ⟨.curly, (known .curly).symm ▸ member⟩

/-- Before the loose pairing exactly the braces and the delimiters of environments have a partner.
-/
theorem strictlyPaired_nested : StrictlyPaired p.nested := by
  intro t member side
  obtain ⟨i, found⟩ := List.getElem?_of_mem member
  obtain ⟨joined, reads, together⟩ := p.reads_joined coherent p.map_unpaired_nested
  have linked := p.linked_nested coherent
  constructor
  · intro alone
    by_contra delimits
    have marked : strictMark? t ≠ none := strictMark?_ne_none (by grind) side
    obtain ⟨l, strict, ends⟩ := reads.covers.2 i t found marked
    rw [Nat.zero_add] at ends
    exact linked.offset_ne_zero ((together l).mp strict) found ends alone
  · intro plain
    by_contra paired
    obtain ⟨l, strict, ends⟩ := linked.only i t found paired
    have delimits := delimits_of_reads reads ((together l).mpr strict) ends found
    grind

/-- No end of a loose pair is a brace or delimits an environment. -/
theorem plain_of_loose {l : Link} (member : l ∈ p.loose) {i : Nat} {t : Token}
    (found : prepared[i]? = some t) (ends : l.opener = i ∨ l.closer = i) :
    ¬ (t.kind.curly = true ∨ t.kind.env = true) := by
  obtain ⟨u, there, loose⟩ := (looseLinks_scan 0 [] p.nested).layout.of_end member ends
  obtain ⟨v, here, kind, _⟩ := getElem?_of_map_unpaired
    (p.map_unpaired_prepared.trans p.map_unpaired_nested.symm) found
  cases there.symm.trans here
  have side : u.kind.opens = true ∨ u.kind.closes = true := loose.imp (·.2) (·.2.2)
  have alone : u.offset = 0 := loose.elim (·.1) (·.1)
  have plain :=
    (p.strictlyPaired_nested coherent u (List.mem_of_getElem? there) side).mp alone
  rw [← kind]
  simp [plain]

/-- The pairs of a prepared list are the strict ones and the loose ones. -/
theorem pair_cases {joined : List Link} (reads : Reads strictMark? 0 [] prepared joined)
    (together : ∀ l, l ∈ joined ↔ l ∈ p.environments ++ p.curlies) {l : Link}
    (pair : Pair prepared l) :
    l ∈ joined ∧ StrictPair prepared l ∨ l ∈ p.loose ∧ ¬ StrictPair prepared l := by
  have member := (pair_iff_of_linked (p.linked_prepared coherent) l).mp pair
  rcases List.mem_append.mp member with strict | loose
  · have inside := (together l).mpr strict
    obtain ⟨t, found, _⟩ := reads.scan.layout.opener l inside
    exact .inl ⟨inside, t, found, delimits_of_reads reads inside (.inl rfl) found⟩
  · refine .inr ⟨loose, ?_⟩
    rintro ⟨t, found, delimits⟩
    exact p.plain_of_loose coherent loose found (.inl rfl) delimits

/-- A loose pair crosses no strict pair if what it encloses is nested by itself. -/
theorem nested_between_iff {joined : List Link} (reads : Reads strictMark? 0 [] prepared joined)
    {l : Link} (pair : Pair prepared l) (loose : l ∈ p.loose) :
    Nested (wordOf strictMark? (between prepared l)) ↔
      ∀ s ∈ joined, (l.opener < s.opener → l.Fits s) ∧ (s.opener < l.opener → s.Fits l) := by
  obtain ⟨forward, _⟩ := pair
  have layout := (looseLinks_scan 0 [] p.nested).layout
  have size : prepared.length = p.nested.length := by
    simpa using congrArg List.length
      (p.map_unpaired_prepared.trans p.map_unpaired_nested.symm)
  have inside : l.closer < prepared.length := by
    obtain ⟨t, found, _⟩ := layout.closer l loose
    rw [size]
    exact (List.getElem?_eq_some_iff.mp found).1
  have start : (prepared.take (l.opener + 1)).length = l.opener + 1 := by
    rw [List.length_take]
    omega
  have split := @take_append_between prepared l forward
  rw [← split] at reads
  rw [reads.nested_iff_closed, start, length_between inside]
  rw [split] at reads
  have closed : ∀ s ∈ joined, s.opener < s.closer ∧ s.opener ≠ l.opener ∧ s.opener ≠ l.closer ∧
      s.closer ≠ l.opener ∧ s.closer ≠ l.closer := by
    intro s strict
    have plain : ∀ i, s.opener = i ∨ s.closer = i → l.opener ≠ i ∧ l.closer ≠ i := by
      intro i ends
      obtain ⟨t, found, _⟩ := reads.scan.layout.of_end strict ends
      have delimits := delimits_of_reads reads strict ends found
      constructor <;> intro same
      · exact p.plain_of_loose coherent loose found (.inl same) delimits
      · exact p.plain_of_loose coherent loose found (.inr same) delimits
    have first := plain s.opener (.inl rfl)
    have last := plain s.closer (.inr rfl)
    exact ⟨reads.scan.layout.forward s strict, first.1.symm, first.2.symm, last.1.symm, last.2.symm⟩
  constructor
  · intro enclosed s strict
    have ends := closed s strict
    have both := enclosed s strict
    unfold Inside at both
    unfold Link.Fits
    omega
  · intro fits s strict
    have ends := closed s strict
    have both := fits s strict
    unfold Link.Fits at both
    unfold Inside
    omega

end Preparation

/-- Pairs of one sort never cross: neither two strict ones nor two loose ones. All pairs together
cross nowhere if and only if between the ends of every loose pair the braces and environments are
nested by themselves. -/
theorem fits_iff_nested_between {source : String} {tokens : List Token}
    (done : tokenize source = .ok tokens) :
    (∀ first second, Pair tokens first → Pair tokens second →
      (StrictPair tokens first ↔ StrictPair tokens second) → first.opener < second.opener →
      first.Fits second) ∧
    ((∀ first second, Pair tokens first → Pair tokens second → first.opener < second.opener →
        first.Fits second) ↔
      ∀ l, Pair tokens l → ¬ StrictPair tokens l →
        Nested (wordOf strictMark? (between tokens l))) := by
  obtain ⟨p⟩ := prepare_eq_ok_iff.mp done
  have coherent : ∀ t ∈ lex source, t.kind.Coherent := fun t member => (fresh_lex source t member).1
  obtain ⟨joined, reads, together⟩ := p.reads_joined coherent p.map_unpaired_prepared
  have sorts : ∀ l, Pair tokens l →
      l ∈ joined ∧ StrictPair tokens l ∨ l ∈ p.loose ∧ ¬ StrictPair tokens l :=
    fun l pair => p.pair_cases coherent reads together pair
  have strictly := reads.scan.layout
  have loosely := (looseLinks_scan 0 [] p.nested).layout
  have same : ∀ first second, Pair tokens first → Pair tokens second →
      (StrictPair tokens first ↔ StrictPair tokens second) → first.opener < second.opener →
      first.Fits second := by
    intro first second left right sort order
    rcases sorts first left with ⟨member, strict⟩ | ⟨member, loose⟩
    · rcases sorts second right with ⟨member', _⟩ | ⟨_, loose'⟩
      · exact strictly.fits member member' order
      · exact absurd (sort.mp strict) loose'
    · rcases sorts second right with ⟨_, strict'⟩ | ⟨member', _⟩
      · exact absurd (sort.mpr strict') loose
      · exact loosely.fits member member' order
  refine ⟨same, ?_, ?_⟩
  · intro uncrossed l pair loose
    have member : l ∈ p.loose := by
      rcases sorts l pair with ⟨_, strict⟩ | ⟨member, _⟩
      · exact absurd strict loose
      · exact member
    refine (p.nested_between_iff coherent reads pair member).mpr fun s strict => ?_
    have other : Pair tokens s := (pair_iff_of_linked (p.linked_prepared coherent) s).mpr
      (List.mem_append_left _ ((together s).mp strict))
    exact ⟨uncrossed l s pair other, uncrossed s l other pair⟩
  · intro enclosed first second left right order
    rcases sorts first left with ⟨member, strict⟩ | ⟨member, loose⟩
    · rcases sorts second right with ⟨_, strict'⟩ | ⟨member', loose'⟩
      · exact same first second left right (iff_of_true strict strict') order
      · exact ((p.nested_between_iff coherent reads right member').mp
          (enclosed second right loose') first member).2 order
    · rcases sorts second right with ⟨member', _⟩ | ⟨_, loose'⟩
      · exact ((p.nested_between_iff coherent reads left member).mp
          (enclosed first left loose) second member').1 order
      · exact same first second left right (iff_of_false loose loose') order

theorem fits_iff_nested_between_brackets :
    ∃ tokens, tokenize "([a])" = .ok tokens ∧ Pair tokens ⟨0, 4⟩ ∧ Pair tokens ⟨1, 3⟩ ∧
      Link.Fits ⟨0, 4⟩ ⟨1, 3⟩ := by
  have fits : ∀ tokens, tokenize "([a])" = .ok tokens → Pair tokens ⟨0, 4⟩ → Pair tokens ⟨1, 3⟩ →
      ¬ StrictPair tokens ⟨0, 4⟩ → ¬ StrictPair tokens ⟨1, 3⟩ → Link.Fits ⟨0, 4⟩ ⟨1, 3⟩ :=
    fun tokens done outer inner loose loose' =>
      (fits_iff_nested_between done).1 _ _ outer inner (iff_of_false loose loose') (by decide)
  refine ⟨_, by cbv, ⟨by decide, _, rfl, by decide⟩, ⟨by decide, _, rfl, by decide⟩,
    fits _ (by cbv) ⟨by decide, _, rfl, by decide⟩ ⟨by decide, _, rfl, by decide⟩ ?_ ?_⟩
  all_goals
    rintro ⟨t, found, delimits⟩
    cases found
    simp at delimits

/-- A bracket that is opened before a group is paired with one inside the group. -/
theorem pairs_cross_at_group :
    ∃ tokens first second, tokenize "[\x7ba]b\x7d" = .ok tokens ∧ Pair tokens first ∧
      Pair tokens second ∧ first.opener < second.opener ∧ ¬ first.Fits second := by
  refine ⟨_, ⟨0, 3⟩, ⟨1, 5⟩, by cbv, ⟨by decide, _, rfl, by decide⟩,
    ⟨by decide, _, rfl, by decide⟩, by decide, ?_⟩
  rintro (apart | inside)
  · exact absurd apart (by decide)
  · exact absurd inside (by decide)

end Token

end TexFormula
