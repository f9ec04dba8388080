import Mathlib
import TexFormula.Proofs.Token.Collapse
import TexFormula.Proofs.Token.Preparation

/-! Acceptance. A source can be made ready for parsing if two words are nested: that of its braces,
and that of all strict delimiters once environments are collapsed. The passes in between never
stumble over a name, and the second pass over the braces finds no fault. -/
namespace TexFormula.Token
open Pairing

variable {tokens : List Token}

/-- Where the links of the braces are among the links of a list, every group is known. -/
theorem spanned_of_linked {links curlies : List Link} (linked : Linked tokens links)
    (reads : Reads Family.curly.mark? 0 [] tokens curlies) (among : ∀ l ∈ curlies, l ∈ links) :
    Spanned tokens := by
  intro before brace after split opens
  rw [split] at linked reads
  obtain ⟨name, close, behind, rfl, nested, closes, member⟩ :=
    reads.span_at (Family.mark?_eq_opens.mpr ⟨opens, rfl⟩)
  obtain ⟨t, atOpener, offset⟩ := linked.opener _ (among _ member)
  have here : (before ++ brace :: (name ++ close :: behind))[before.length]? = some brace := by
    simp
  cases here.symm.trans atOpener
  refine ⟨name, close, behind, rfl, nested, (Family.mark?_eq_closes.mp closes).1, ?_⟩
  simp only at offset
  omega

/-- Linked braces know their groups. -/
theorem spanned_link {braces : List Link} (alone : ∀ t ∈ tokens, t.offset = 0)
    (found : strictLinks .curly 0 [] tokens = .ok braces) : Spanned (link tokens braces) := by
  have layout := (strictLinks_eq_ok_iff.mp found).scan.layout
  have linked : Linked (link tokens braces) braces :=
    (linked_nil alone).link layout fun t member _ => alone t member
  have reads := strictLinks_eq_ok_iff.mp
    ((strictLinks_congr (map_unpaired_link tokens braces)).mpr found)
  exact spanned_of_linked linked reads fun _ member => member

theorem unpaired_unlinked : ∀ t ∈ unlinked tokens, t.offset = 0 := by
  intro t member
  obtain ⟨u, _, rfl⟩ := List.mem_map.mp member
  rfl

/-- Once its braces are linked, a list is collapsed in the only way there is. -/
theorem collapsed_unlinked {braces : List Link}
    (found : strictLinks .curly 0 [] (unlinked tokens) = .ok braces) :
    Collapsed (unlinked tokens) (collapseEnvironments (link (unlinked tokens) braces)) := by
  have spanned := spanned_link unpaired_unlinked found
  have collapsed := (collapsed_collapseEnvironments spanned).map_unpaired
  rw [map_unpaired_link] at collapsed
  have plain : (unlinked tokens).map unpaired = unlinked tokens := by
    rw [unlinked, List.map_map]
    rfl
  rwa [plain] at collapsed

/-- The offsets of a strictly paired list are those of strict delimiters. -/
theorem strictMark?_of_linked {environments curlies : List Link} (fresh : ∀ t ∈ tokens, t.Fresh)
    (environments_found : strictLinks .environment 0 [] tokens = .ok environments)
    (curlies_found : strictLinks .curly 0 [] tokens = .ok curlies) :
    ∀ t ∈ link (link tokens environments) curlies, t.offset ≠ 0 → strictMark? t ≠ none := by
  intro t member paired plain
  obtain ⟨i, found⟩ := List.getElem?_of_mem member
  have same : (link (link tokens environments) curlies).map unpaired = tokens.map unpaired := by
    rw [map_unpaired_link, map_unpaired_link]
  have coherent := coherent_of_map_unpaired same fun t member => (fresh t member).1
  have marked : ∀ (f : Family) (links : List Link), strictLinks f 0 [] tokens = .ok links →
      ∀ l ∈ links, l.opener = i ∨ l.closer = i → f.mark? t ≠ none := by
    intro f links linked l inside ends
    have reads := strictLinks_eq_ok_iff.mp ((strictLinks_congr same).mpr linked)
    obtain ⟨u, there, delimits⟩ := reads.scan.layout.of_end inside ends
    cases found.symm.trans there
    rcases delimits with ⟨b, opens⟩ | ⟨b, closes⟩
    · simp [opens]
    · simp [closes]
  obtain ⟨l, inside, ends⟩ :=
    (linked_strict fresh environments_found curlies_found).only i t found paired
  have none := fun f : Family => f.mark?_of_none (coherent t member) plain
  rcases List.mem_append.mp inside with inside | inside
  · exact marked .environment environments environments_found l inside ends (none _)
  · exact marked .curly curlies curlies_found l inside ends (none _)

/-- Linking changes no delimiter, so each family is read in the linked list as before. -/
theorem eachReads_link {environments curlies : List Link}
    (environments_found : strictLinks .environment 0 [] tokens = .ok environments)
    (curlies_found : strictLinks .curly 0 [] tokens = .ok curlies) :
    EachReads (environments ++ curlies) 0 [] (link (link tokens environments) curlies) := by
  have same : (link (link tokens environments) curlies).map unpaired = tokens.map unpaired := by
    rw [map_unpaired_link, map_unpaired_link]
  intro f
  cases f with
  | curly =>
    exact ⟨curlies, strictLinks_eq_ok_iff.mp ((strictLinks_congr same).mpr curlies_found),
      fun l member => List.mem_append_right _ member⟩
  | environment =>
    exact ⟨environments, strictLinks_eq_ok_iff.mp ((strictLinks_congr same).mpr environments_found),
      fun l member => List.mem_append_left _ member⟩

/-- The three strict passes accept the lists whose strict delimiters are nested together. -/
theorem strict_passes_iff_nested (fresh : ∀ t ∈ tokens, t.Fresh) :
    (∃ environments curlies, strictLinks .environment 0 [] tokens = .ok environments ∧
      strictLinks .curly 0 [] tokens = .ok curlies ∧
      crossing? 0 [] (link (link tokens environments) curlies) = none) ↔
      Nested (wordOf strictMark? tokens) := by
  have coherent : ∀ t ∈ tokens, t.kind.Coherent := fun t member => (fresh t member).1
  have same : ∀ environments curlies,
      (link (link tokens environments) curlies).map unpaired = tokens.map unpaired := by
    intro environments curlies
    rw [map_unpaired_link, map_unpaired_link]
  have marks : ∀ environments curlies,
      (link (link tokens environments) curlies).map strictMark? = tokens.map strictMark? :=
    fun environments curlies =>
      map_eq_of_map_unpaired strictMark?_unpaired (same environments curlies)
  constructor
  · rintro ⟨environments, curlies, environments_found, curlies_found, uncrossed⟩
    have each : EachReads (environments ++ curlies) 0 (([] : Waiting).map enter) _ :=
      eachReads_link environments_found curlies_found
    obtain ⟨joined, reads⟩ := reads_of_uncrossed
      (linked_strict fresh environments_found curlies_found)
      (coherent_of_map_unpaired (same _ _) coherent)
      (strictMark?_of_linked fresh environments_found curlies_found) rfl (below_nil 0) each
      uncrossed
    exact reads_iff_nested.mp ⟨joined, reads.congr (marks environments curlies).symm⟩
  · intro nested
    obtain ⟨joined, reads⟩ := (reads_iff_nested (i := 0)).mpr nested
    obtain ⟨own, each, together⟩ := reads.families coherent
    have environments_found : strictLinks .environment 0 [] tokens = .ok (own .environment) :=
      strictLinks_eq_ok_iff.mpr (each .environment)
    have curlies_found : strictLinks .curly 0 [] tokens = .ok (own .curly) :=
      strictLinks_eq_ok_iff.mpr (each .curly)
    refine ⟨own .environment, own .curly, environments_found, curlies_found, ?_⟩
    refine crossing?_of_reads (linked_strict fresh environments_found curlies_found)
      (strictMark?_of_linked fresh environments_found curlies_found) rfl
      (reads.congr (marks _ _)) fun l member => ?_
    obtain ⟨f, member⟩ := (together l).mp member
    cases f with
    | curly => exact List.mem_append_right _ member
    | environment => exact List.mem_append_left _ member

/-- Two conditions on words decide whether a list of coherent tokens can be prepared. -/
theorem prepare_ok_iff_nested (coherent : ∀ t ∈ tokens, t.kind.Coherent) :
    (∃ prepared, prepare tokens = .ok prepared) ↔
      Nested (wordOf Family.curly.mark? (unlinked tokens)) ∧
        ∃ out, Collapsed (unlinked tokens) out ∧ Nested (wordOf strictMark? out) := by
  have fresh : ∀ braces, ∀ t ∈ collapseEnvironments (link (unlinked tokens) braces), t.Fresh :=
    fun braces => fresh_collapseEnvironments
      (coherent_of_map_unpaired (map_unpaired_link _ _) (coherent_unlinked coherent))
  constructor
  · rintro ⟨prepared, done⟩
    obtain ⟨p⟩ := prepare_eq_ok_iff.mp done
    have found := p.braces_found
    refine ⟨strictLinks_ok_iff_nested.mp ⟨p.braces, found⟩, _, collapsed_unlinked found, ?_⟩
    rw [← p.collapsed_eq]
    exact (strict_passes_iff_nested (p.fresh_collapsed coherent)).mp
      ⟨p.environments, p.curlies, p.environments_found, p.curlies_found, p.uncrossed⟩
  · rintro ⟨braces_nested, out, collapsed, nested⟩
    obtain ⟨braces, found⟩ := strictLinks_ok_iff_nested.mpr braces_nested
    cases (collapsed_unlinked found).unique collapsed
    obtain ⟨environments, curlies, environments_found, curlies_found, uncrossed⟩ :=
      (strict_passes_iff_nested (fresh braces)).mpr nested
    exact ⟨_, prepare_eq_ok_iff.mpr ⟨⟨braces, _, environments, curlies, found, rfl,
      environments_found, curlies_found, uncrossed, rfl⟩⟩⟩

/-- The tokens of a source have no partner before the pairing. -/
theorem unlinked_lex (source : String) : unlinked (lex source) = absorbSizing (lex source) :=
  map_unpaired_of_fresh (fresh_absorbSizing (fresh_lex source))

/-- A source is accepted if its braces are nested, and its braces and environments are nested
together once every environment is delimited by one token on each side. If the braces are nested
there is one such list, every opening brace leads to a place inside the list, and the braces that
remain can be paired again. -/
theorem tokenize_ok_iff_nested (source : String) :
    ((∃ tokens, tokenize source = .ok tokens) ↔
      Nested (wordOf Family.curly.mark? (absorbSizing (lex source))) ∧
        ∃ collapsed, Collapsed (absorbSizing (lex source)) collapsed ∧
          Nested (wordOf strictMark? collapsed)) ∧
    ∀ braced, pairStrictly .curly ((absorbSizing (lex source)).map unpaired) = .ok braced →
      (∀ collapsed, Collapsed (absorbSizing (lex source)) collapsed ↔
        collapsed = collapseEnvironments braced) ∧
      (∀ before brace after, braced = before ++ brace :: after → Family.curly.Opens brace →
        1 ≤ brace.offset ∧ brace.offset ≤ after.length) ∧
      ∀ paired, pairStrictly .environment (collapseEnvironments braced) = .ok paired →
        ∃ nested, pairStrictly .curly paired = .ok nested := by
  have coherent : ∀ t ∈ lex source, t.kind.Coherent := fun t member => (fresh_lex source t member).1
  have accepted := prepare_ok_iff_nested coherent
  rw [unlinked_lex] at accepted
  refine ⟨accepted, fun braced paired => ?_⟩
  obtain ⟨braces, found, rfl⟩ := pairStrictly_eq_ok_iff.mp paired
  have found : strictLinks .curly 0 [] (unlinked (lex source)) = .ok braces := found
  have collapsed := collapsed_unlinked found
  have spanned := spanned_link unpaired_unlinked found
  refine ⟨fun other => ?_, fun before brace after split opens => ?_, fun others paired => ?_⟩
  · have sized := (congrArg (Collapsed · _) (unlinked_lex source)).mp collapsed
    constructor
    · intro again
      exact sized.unique again
    · rintro rfl
      exact sized
  · obtain ⟨name, close, behind, rfl, _, _, offset⟩ := spanned before brace after split opens
    rw [List.length_append, List.length_cons]
    omega
  · obtain ⟨environments, _, rfl⟩ := pairStrictly_eq_ok_iff.mp paired
    have nested : Nested (wordOf Family.curly.mark?
        (collapseEnvironments (link (unlinked (lex source)) braces))) := by
      rw [nested_iff_settles, collapsed.settles_iff (coherent_unlinked coherent),
        ← nested_iff_settles]
      exact strictLinks_ok_iff_nested.mp ⟨braces, found⟩
    obtain ⟨curlies, again⟩ := strictLinks_ok_iff_nested.mpr nested
    exact ⟨_, pairStrictly_eq_ok_iff.mpr
      ⟨curlies, (strictLinks_congr (map_unpaired_link _ _)).mpr again, rfl⟩⟩

/-- A group inside an environment is accepted, and its braces are paired in both passes. -/
theorem tokenize_ok_iff_nested_group :
    ∃ source braced paired nested, (∃ tokens, tokenize source = .ok tokens) ∧
      pairStrictly .curly ((absorbSizing (lex source)).map unpaired) = .ok braced ∧
      pairStrictly .environment (collapseEnvironments braced) = .ok paired ∧
      pairStrictly .curly paired = .ok nested ∧
      Collapsed (absorbSizing (lex source)) (collapseEnvironments braced) := by
  obtain ⟨_, passes⟩ := tokenize_ok_iff_nested "\\begin\x7ba\x7d\x7bx\x7d\\end\x7ba\x7d"
  obtain ⟨collapsed, _, again⟩ := passes _ (by cbv)
  obtain ⟨nested, third⟩ := again _ (by cbv)
  exact ⟨_, _, _, nested, ⟨_, by cbv⟩, by cbv, by cbv, third, (collapsed _).mpr rfl⟩

end TexFormula.Token
