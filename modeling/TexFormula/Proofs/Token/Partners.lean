import TexFormula.Proofs.Token.Preparation

/-! Partners. In a prepared list every offset leads to a token that points back, the first of the
two opens and the second closes, and no brace and no environment delimiter stays alone. -/
namespace TexFormula.Token
open Pairing

/-- Two delimiters of which the first only opens and the second only closes. -/
def Faces (opener closer : Token) : Prop :=
  opener.kind.opens = true ∧ opener.kind.closes = false ∧
    closer.kind.closes = true ∧ closer.kind.opens = false

/-- The offsets of a token list are those of pairs that face each other, and the strict delimiters
are all among them. -/
structure Matched (tokens : List Token) : Prop where
  partner : ∀ (i : Nat) (t : Token), tokens[i]? = some t → t.offset ≠ 0 →
    ∃ (j : Nat) (u : Token), (j : Int) = i + t.offset ∧ tokens[j]? = some u ∧
      u.offset = -t.offset ∧ if i < j then Faces t u else Faces u t
  strict : ∀ t ∈ tokens, (t.kind.curly = true ∨ t.kind.env = true) →
    (t.kind.opens = true ∨ t.kind.closes = true) → t.offset ≠ 0

/-- Links whose ends face each other give every offset a partner. -/
theorem partner_of_linked {tokens : List Token} {links : List Link} (linked : Linked tokens links)
    (faces : ∀ l ∈ links, ∀ o c, tokens[l.opener]? = some o → tokens[l.closer]? = some c →
      Faces o c)
    {i : Nat} {t : Token} (found : tokens[i]? = some t) (paired : t.offset ≠ 0) :
    ∃ (j : Nat) (u : Token), (j : Int) = i + t.offset ∧ tokens[j]? = some u ∧
      u.offset = -t.offset ∧ if i < j then Faces t u else Faces u t := by
  obtain ⟨l, member, ends⟩ := linked.only i t found paired
  have forward := linked.forward l member
  obtain ⟨o, atOpener, opener⟩ := linked.opener l member
  obtain ⟨c, atCloser, closer⟩ := linked.closer l member
  have facing := faces l member o c atOpener atCloser
  rcases ends with rfl | rfl
  · cases found.symm.trans atOpener
    exact ⟨l.closer, c, by omega, atCloser, by omega, by rwa [if_pos forward]⟩
  · cases found.symm.trans atCloser
    exact ⟨l.opener, o, by omega, atOpener, by omega, by rwa [if_neg (by omega)]⟩

/-- A delimiter of a family is an end of one of its links. -/
theorem Preparation.strict_end {tokens prepared : List Token} (p : Preparation tokens prepared)
    {f : Family} {i : Nat} {t : Token} (found : prepared[i]? = some t)
    (delimits : f.Opens t ∨ f.Closes t) : ∃ l ∈ p.strict f, l.opener = i ∨ l.closer = i := by
  have marked : f.mark? t ≠ none := by
    rw [Ne, Family.mark?_eq_none]
    rcases delimits with opens | closes
    · exact fun plain => plain.1 opens
    · exact fun plain => plain.2 closes
  have reads := p.reads_strict f p.map_unpaired_prepared
  obtain ⟨l, member, ends⟩ := reads.covers.2 i t found marked
  exact ⟨l, member, by simpa using ends⟩

/-- Links from openers to closers face each other, in every list with the same kinds. -/
theorem faces_of_layout {Opens Closes : Token → Prop} {tokens base : List Token} {links : List Link}
    (layout : Layout Opens Closes base links) (same : tokens.map unpaired = base.map unpaired)
    (coherent : ∀ t ∈ tokens, t.kind.Coherent) (opens : ∀ t, Opens t → t.kind.opens = true)
    (closes : ∀ t, Closes t → t.kind.opens = false ∧ t.kind.closes = true) :
    ∀ l ∈ links, ∀ o c, tokens[l.opener]? = some o → tokens[l.closer]? = some c → Faces o c := by
  intro l member o c atOpener atCloser
  obtain ⟨u, found, kind, _⟩ := getElem?_of_map_unpaired same atOpener
  obtain ⟨v, found', kind', _⟩ := getElem?_of_map_unpaired same atCloser
  obtain ⟨_, here, left⟩ := layout.opener l member
  obtain ⟨_, there, right⟩ := layout.closer l member
  cases found.symm.trans here
  cases found'.symm.trans there
  have opener : o.kind.opens = true := kind ▸ opens u left
  obtain ⟨notOpens, closer⟩ := closes v right
  have oneSided := (coherent o (List.mem_of_getElem? atOpener)).oneSided
  exact ⟨opener, by simpa [opener] using oneSided, kind' ▸ closer, kind' ▸ notOpens⟩

theorem Preparation.faces {tokens prepared : List Token} (p : Preparation tokens prepared)
    (coherent : ∀ t ∈ tokens, t.kind.Coherent) :
    ∀ l ∈ p.environments ++ p.curlies ++ p.loose, ∀ o c, prepared[l.opener]? = some o →
      prepared[l.closer]? = some c → Faces o c := by
  have sound := p.coherent_prepared coherent
  have strict : ∀ f : Family, ∀ l ∈ p.strict f, ∀ o c, prepared[l.opener]? = some o →
      prepared[l.closer]? = some c → Faces o c := fun f =>
    faces_of_layout (p.reads_strict f rfl).scan.layout p.map_unpaired_prepared sound
      (fun t opens => (Family.opener_iff.mp opens).2)
      fun t closes => (Family.closer_iff.mp closes).2
  have loose := faces_of_layout (looseLinks_scan 0 [] p.nested).layout
    (p.map_unpaired_prepared.trans p.map_unpaired_nested.symm) sound
    (fun t opens => opens.2) fun t closes => closes.2
  intro l member
  rcases List.mem_append.mp member with member | member
  · rcases List.mem_append.mp member with member | member
    · exact strict .environment l member
    · exact strict .curly l member
  · exact loose l member

/-- Preparation of coherent tokens matches them. -/
theorem matched_of_prepare {tokens prepared : List Token} (coherent : ∀ t ∈ tokens, t.kind.Coherent)
    (done : prepare tokens = .ok prepared) : Matched prepared := by
  obtain ⟨p⟩ := prepare_eq_ok_iff.mp done
  have linked := p.linked_prepared coherent
  refine ⟨fun i t found paired =>
    partner_of_linked linked (p.faces coherent) found paired, fun t member delimits sides => ?_⟩
  obtain ⟨i, found⟩ := List.getElem?_of_mem member
  have family : ∃ f : Family, f.has t = true :=
    delimits.elim (fun curly => ⟨.curly, curly⟩) fun env => ⟨.environment, env⟩
  obtain ⟨f, has⟩ := family
  have side : f.Opens t ∨ f.Closes t := by
    unfold Family.Opens Family.Closes
    cases opens : t.kind.opens with
    | true => exact .inl ⟨has, rfl⟩
    | false => exact .inr ⟨has, rfl, by simpa [opens] using sides⟩
  obtain ⟨l, strict, ends⟩ := p.strict_end found side
  have known : l ∈ p.environments ++ p.curlies ++ p.loose := by
    cases f <;> simp [Preparation.strict] at strict <;> simp [strict]
  exact linked.offset_ne_zero known found ends

end TexFormula.Token
