import TexFormula.Proofs.Pairing.Links

/-! Offsets as a view of links. A token list shows its pairs as offsets, and a list is `Linked` by
the links that its offsets spell. Linking new pairs into a list keeps the pairs that are there, if
the new ones join tokens without a partner. -/
namespace TexFormula.Pairing

/-- What one link writes into the offsets. -/
def writeLink (a : Array Int) (l : Link) : Array Int :=
  (a.setIfInBounds l.opener (l.closer - l.opener)).setIfInBounds l.closer (l.opener - l.closer)

theorem offsets_eq_foldl (n : Nat) (links : List Link) :
    offsets n links = links.foldl writeLink (Array.replicate n 0) := rfl

theorem size_foldl_writeLink (links : List Link) (a : Array Int) :
    (links.foldl writeLink a).size = a.size := by
  induction links generalizing a with
  | nil => rfl
  | cons l links ih => rw [List.foldl_cons, ih]; simp [writeLink]

/-- Links leave the offsets of all other positions as they are. -/
theorem getElem?_foldl_writeLink {links : List Link} {i : Nat}
    (untouched : ∀ l ∈ links, l.opener ≠ i ∧ l.closer ≠ i) (a : Array Int) :
    (links.foldl writeLink a)[i]? = a[i]? := by
  induction links generalizing a with
  | nil => rfl
  | cons l links ih =>
    obtain ⟨here, there⟩ := List.forall_mem_cons.mp untouched
    rw [List.foldl_cons, ih there, writeLink, Array.getElem?_setIfInBounds_ne here.2,
      Array.getElem?_setIfInBounds_ne here.1]

/-- Among links that share no end, the last word on both ends of a link is its own. -/
theorem getElem?_offsets {n : Nat} {links : List Link} (apart : links.Pairwise Link.Apart)
    {l : Link} (member : l ∈ links) (forward : l.opener < l.closer) (inside : l.closer < n) :
    (offsets n links)[l.opener]? = some ((l.closer : Int) - l.opener) ∧
      (offsets n links)[l.closer]? = some ((l.opener : Int) - l.closer) := by
  obtain ⟨before, after, rfl⟩ := List.append_of_mem member
  have later : ∀ other ∈ after, l.Apart other :=
    (List.pairwise_cons.mp (List.pairwise_append.mp apart).2.1).1
  have atOpener : ∀ other ∈ after, other.opener ≠ l.opener ∧ other.closer ≠ l.opener := by
    intro other afterwards
    obtain ⟨ends, starts⟩ := later other afterwards
    omega
  have atCloser : ∀ other ∈ after, other.opener ≠ l.closer ∧ other.closer ≠ l.closer := by
    intro other afterwards
    obtain ⟨ends, starts⟩ := later other afterwards
    omega
  have size := size_foldl_writeLink before (Array.replicate n 0)
  rw [Array.size_replicate] at size
  rw [offsets_eq_foldl, List.foldl_append, List.foldl_cons, getElem?_foldl_writeLink atOpener,
    getElem?_foldl_writeLink atCloser, writeLink, Array.getElem?_setIfInBounds_ne (by omega)]
  constructor
  · exact Array.getElem?_setIfInBounds_self_of_lt (by rw [size]; omega)
  · exact Array.getElem?_setIfInBounds_self_of_lt (by rw [Array.size_setIfInBounds, size]; omega)

/-- The tokens of a linked list, position by position. -/
theorem getElem?_link (tokens : List Token) (links : List Link) (i : Nat) :
    (link tokens links)[i]? = tokens[i]?.map fun t =>
      setOffset t ((offsets tokens.length links)[i]?.getD 0) := by
  have size : (offsets tokens.length links).size = tokens.length := by
    rw [offsets_eq_foldl, size_foldl_writeLink, Array.size_replicate]
  have listed : (offsets tokens.length links).toList[i]? = (offsets tokens.length links)[i]? :=
    Array.getElem?_toList
  rw [link, List.getElem?_zipWith, listed]
  cases found : tokens[i]? with
  | none => rfl
  | some t =>
    have inside : i < (offsets tokens.length links).size := by
      rw [size]
      exact (List.getElem?_eq_some_iff.mp found).1
    rw [Array.getElem?_eq_getElem inside]
    rfl

theorem unpaired_setOffset (t : Token) (offset : Int) :
    (setOffset t offset).unpaired = t.unpaired := by
  unfold setOffset; split <;> rfl

theorem offset_setOffset {t : Token} {offset : Int} (nonzero : offset ≠ 0) :
    (setOffset t offset).offset = offset := by
  rw [setOffset, if_neg nonzero]

/-- Tokens at no end of a link stay as they are. -/
theorem getElem?_link_of_untouched (tokens : List Token) {links : List Link} {i : Nat}
    (untouched : ∀ l ∈ links, l.opener ≠ i ∧ l.closer ≠ i) :
    (link tokens links)[i]? = tokens[i]? := by
  rw [getElem?_link, offsets_eq_foldl, getElem?_foldl_writeLink untouched]
  cases found : tokens[i]? with
  | none => rfl
  | some t =>
    have inside := (List.getElem?_eq_some_iff.mp found).1
    simp [inside, setOffset]

/-- Both tokens of a link get the distance to each other. -/
theorem Layout.offset_link {Opens Closes : Token → Prop} {tokens : List Token} {links : List Link}
    (layout : Layout Opens Closes tokens links) {l : Link} (member : l ∈ links) :
    (∃ t, (link tokens links)[l.opener]? = some t ∧ t.offset = l.closer - l.opener) ∧
      ∃ t, (link tokens links)[l.closer]? = some t ∧ t.offset = l.opener - l.closer := by
  have forward := layout.forward l member
  obtain ⟨o, atOpener, _⟩ := layout.opener l member
  obtain ⟨c, atCloser, _⟩ := layout.closer l member
  have inside := (List.getElem?_eq_some_iff.mp atCloser).1
  obtain ⟨first, second⟩ := getElem?_offsets layout.apart member forward inside
  constructor
  · rw [getElem?_link, atOpener, first]
    exact ⟨_, rfl, offset_setOffset (by simp only [Option.getD_some]; omega)⟩
  · rw [getElem?_link, atCloser, second]
    exact ⟨_, rfl, offset_setOffset (by simp only [Option.getD_some]; omega)⟩

/-- Linking changes nothing but offsets. -/
theorem map_unpaired_link (tokens : List Token) (links : List Link) :
    (link tokens links).map Token.unpaired = tokens.map Token.unpaired := by
  apply List.ext_getElem?
  intro i
  rw [List.getElem?_map, getElem?_link, List.getElem?_map, Option.map_map]
  exact congrArg (Option.map · tokens[i]?) (funext fun t => unpaired_setOffset t _)

/-- What does not depend on partners is the same in lists that differ in partners only. -/
theorem map_eq_of_map_unpaired {α : Type} {f : Token → α} (blind : ∀ t, f t.unpaired = f t)
    {tokens others : List Token} (same : others.map Token.unpaired = tokens.map Token.unpaired) :
    others.map f = tokens.map f := by
  have bare : ∀ list : List Token, (list.map Token.unpaired).map f = list.map f := by
    intro list
    rw [List.map_map]
    exact congrArg (List.map · list) (funext blind)
  rw [← bare others, same, bare]

/-- Lists that differ in partners only have the same kinds and values. -/
theorem getElem?_of_map_unpaired {tokens others : List Token}
    (same : others.map Token.unpaired = tokens.map Token.unpaired) {i : Nat} {t : Token}
    (found : others[i]? = some t) :
    ∃ u, tokens[i]? = some u ∧ u.kind = t.kind ∧ u.value = t.value := by
  have bare := congrArg (·[i]?) same
  simp only [List.getElem?_map, found, Option.map_some] at bare
  obtain ⟨u, found', equal⟩ := Option.map_eq_some_iff.mp bare.symm
  exact ⟨u, found', by simpa using congrArg Token.kind equal,
    by simpa using congrArg Token.value equal⟩

/-- The offsets of a token list are those of the links, and every link goes forward. -/
structure Linked (tokens : List Token) (links : List Link) : Prop where
  forward : ∀ l ∈ links, l.opener < l.closer
  opener : ∀ l ∈ links, ∃ t, tokens[l.opener]? = some t ∧ t.offset = l.closer - l.opener
  closer : ∀ l ∈ links, ∃ t, tokens[l.closer]? = some t ∧ t.offset = l.opener - l.closer
  only : ∀ i t, tokens[i]? = some t → t.offset ≠ 0 → ∃ l ∈ links, l.opener = i ∨ l.closer = i

theorem linked_nil {tokens : List Token} (unpaired : ∀ t ∈ tokens, t.offset = 0) :
    Linked tokens [] :=
  ⟨by simp, by simp, by simp, fun _ t found paired =>
    absurd (unpaired t (List.mem_of_getElem? found)) paired⟩

/-- The token at an end of a link has a partner. -/
theorem Linked.offset_ne_zero {tokens : List Token} {links : List Link}
    (linked : Linked tokens links) {l : Link} (member : l ∈ links) {i : Nat} {t : Token}
    (found : tokens[i]? = some t) (ends : l.opener = i ∨ l.closer = i) : t.offset ≠ 0 := by
  have forward := linked.forward l member
  rcases ends with rfl | rfl
  · obtain ⟨o, atOpener, offset⟩ := linked.opener l member
    cases found.symm.trans atOpener
    omega
  · obtain ⟨c, atCloser, offset⟩ := linked.closer l member
    cases found.symm.trans atCloser
    omega

/-- New links between tokens without a partner come to the links of a list. -/
theorem Linked.link {Opens Closes : Token → Prop} {tokens : List Token} {old new : List Link}
    (linked : Linked tokens old) (layout : Layout Opens Closes tokens new)
    (free : ∀ t ∈ tokens, Opens t ∨ Closes t → t.offset = 0) :
    Linked (link tokens new) (old ++ new) := by
  -- An end of an old link has an offset, so that no new link ends there.
  have keeps : ∀ {i : Nat} {t : Token}, tokens[i]? = some t → t.offset ≠ 0 →
      (Pairing.link tokens new)[i]? = some t := by
    intro i t found paired
    have elsewhere : ∀ l ∈ new, ¬ (l.opener = i ∨ l.closer = i) := by
      intro l member ends
      obtain ⟨u, found', delimits⟩ := layout.of_end member ends
      cases found.symm.trans found'
      exact paired (free t (List.mem_of_getElem? found) delimits)
    rw [getElem?_link_of_untouched tokens fun l member => not_or.mp (elsewhere l member), found]
  refine ⟨?_, ?_, ?_, ?_⟩
  · intro l member
    rcases List.mem_append.mp member with member | member
    · exact linked.forward l member
    · exact layout.forward l member
  · intro l member
    rcases List.mem_append.mp member with member | member
    · have forward := linked.forward l member
      obtain ⟨t, found, offset⟩ := linked.opener l member
      exact ⟨t, keeps found (by omega), offset⟩
    · exact (layout.offset_link member).1
  · intro l member
    rcases List.mem_append.mp member with member | member
    · have forward := linked.forward l member
      obtain ⟨t, found, offset⟩ := linked.closer l member
      exact ⟨t, keeps found (by omega), offset⟩
    · exact (layout.offset_link member).2
  · intro i t found paired
    by_cases touched : ∃ l ∈ new, l.opener = i ∨ l.closer = i
    · obtain ⟨l, member, ends⟩ := touched
      exact ⟨l, List.mem_append_right old member, ends⟩
    · have elsewhere : ∀ l ∈ new, ¬ (l.opener = i ∨ l.closer = i) := fun l member ends =>
        touched ⟨l, member, ends⟩
      rw [getElem?_link_of_untouched tokens fun l member => not_or.mp (elsewhere l member)] at found
      obtain ⟨l, member, ends⟩ := linked.only i t found paired
      exact ⟨l, List.mem_append_left new member, ends⟩

end TexFormula.Pairing
