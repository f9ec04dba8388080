import TexFormula.Proofs.Pairing.Links
import TexFormula.Proofs.Pairing.Strict
import TexFormula.Proofs.Token.Coherence

/-! What a successful preparation of a token list consists of: the links that each pass found, and
the list that each pass worked on. The offsets of the result are those of the links of the last
three passes together. -/
namespace TexFormula.Token
open Pairing

/-- The tokens that pairing starts from: no sizing command is left, and nobody has a partner. -/
def unlinked (tokens : List Token) : List Token :=
  (absorbSizing tokens).map unpaired

/-- The run of all passes over a token list, none of which found a fault. -/
structure Preparation (tokens prepared : List Token) where
  /-- The links of the curly braces before environments are collapsed. -/
  braces : List Link
  /-- The tokens with one delimiter on each side of an environment. -/
  collapsed : List Token
  environments : List Link
  /-- The links of the curly braces after environments are collapsed. -/
  curlies : List Link
  braces_found : strictLinks .curly 0 [] (unlinked tokens) = .ok braces
  collapsed_eq : collapsed = collapseEnvironments (link (unlinked tokens) braces)
  environments_found : strictLinks .environment 0 [] collapsed = .ok environments
  curlies_found : strictLinks .curly 0 [] collapsed = .ok curlies
  uncrossed : crossing? 0 [] (link (link collapsed environments) curlies) = none
  prepared_eq : prepared = pairLoosely (link (link collapsed environments) curlies)

theorem pairStrictly_eq_ok_iff {f : Family} {tokens paired : List Token} :
    pairStrictly f tokens = .ok paired ↔
      ∃ links, strictLinks f 0 [] tokens = .ok links ∧ paired = link tokens links := by
  unfold pairStrictly
  cases strictLinks f 0 [] tokens <;> simp [eq_comm]

theorem checkNesting_eq_ok_iff {tokens : List Token} :
    checkNesting tokens = .ok () ↔ crossing? 0 [] tokens = none := by
  unfold checkNesting
  cases crossing? 0 [] tokens <;> simp

theorem bind_eq_ok_iff {α β : Type} {x : Except Error α} {f : α → Except Error β} {b : β} :
    (x >>= f) = .ok b ↔ ∃ a, x = .ok a ∧ f a = .ok b := by
  cases x with
  | error e => simp [bind, Except.bind]
  | ok a => simp [bind, Except.bind]

theorem bind_eq_error_iff {α β : Type} {x : Except Error α} {f : α → Except Error β} {e : Error} :
    (x >>= f) = .error e ↔ x = .error e ∨ ∃ a, x = .ok a ∧ f a = .error e := by
  cases x with
  | error other => simp [bind, Except.bind]
  | ok a => simp [bind, Except.bind]

/-- Preparing fails for a delimiter without its partner, and for nothing else. -/
theorem mismatched_of_prepare {tokens : List Token} {e : Error}
    (failed : prepare tokens = .error e) :
    ∃ bracket position excerpt, e = .mismatched bracket position excerpt := by
  have pairs : ∀ {f : Family} {list : List Token}, pairStrictly f list = .error e →
      ∃ bracket position excerpt, e = .mismatched bracket position excerpt := by
    intro f list failed
    unfold pairStrictly at failed
    split at failed
    · cases failed
    · cases failed
      exact ⟨_, _, _, rfl⟩
  rcases bind_eq_error_iff.mp failed with braces | ⟨_, _, failed⟩
  · exact pairs braces
  rcases bind_eq_error_iff.mp failed with environments | ⟨_, _, failed⟩
  · exact pairs environments
  rcases bind_eq_error_iff.mp failed with curlies | ⟨_, _, failed⟩
  · exact pairs curlies
  rcases bind_eq_error_iff.mp failed with crossed | ⟨_, _, failed⟩
  · unfold checkNesting at crossed
    split at crossed
    · cases crossed
    · cases crossed
      exact ⟨_, _, _, rfl⟩
  · cases failed

theorem prepare_eq_ok_iff {tokens prepared : List Token} :
    prepare tokens = .ok prepared ↔ Nonempty (Preparation tokens prepared) := by
  simp only [prepare, bind_eq_ok_iff, pairStrictly_eq_ok_iff]
  constructor
  · rintro ⟨_, ⟨braces, found, rfl⟩, _, ⟨environments, found', rfl⟩, _, ⟨curlies, found'', rfl⟩, _,
      checked, result⟩
    cases result
    exact ⟨⟨braces, _, environments, curlies, found, rfl, found',
      (strictLinks_congr (map_unpaired_link _ _)).mp found'', checkNesting_eq_ok_iff.mp checked,
      rfl⟩⟩
  · rintro ⟨braces, _, environments, curlies, found, rfl, found', found'', uncrossed, rfl⟩
    exact ⟨_, ⟨braces, found, rfl⟩, _, ⟨environments, found', rfl⟩, _,
      ⟨curlies, (strictLinks_congr (map_unpaired_link _ _)).mpr found'', rfl⟩, (),
      checkNesting_eq_ok_iff.mpr uncrossed, rfl⟩

theorem coherent_unlinked {tokens : List Token} (coherent : ∀ t ∈ tokens, t.kind.Coherent) :
    ∀ t ∈ unlinked tokens, t.kind.Coherent :=
  coherent_of_map_unpaired (by rw [unlinked, List.map_map]; rfl) (coherent_absorbSizing coherent)

/-- The strict pairs of a list. The braces come to the environments, because no brace delimits an
environment. -/
theorem linked_strict {tokens : List Token} {environments curlies : List Link}
    (fresh : ∀ t ∈ tokens, t.Fresh)
    (environments_found : strictLinks .environment 0 [] tokens = .ok environments)
    (curlies_found : strictLinks .curly 0 [] tokens = .ok curlies) :
    Linked (link (link tokens environments) curlies) (environments ++ curlies) := by
  have layout := (strictLinks_eq_ok_iff.mp environments_found).scan.layout
  have linked : Linked (link tokens environments) environments :=
    (linked_nil fun t member => (fresh t member).2).link layout fun t member _ => (fresh t member).2
  have braces := (strictLinks_congr (map_unpaired_link tokens environments)).mpr curlies_found
  refine linked.link (strictLinks_eq_ok_iff.mp braces).scan.layout fun t member brace => ?_
  by_cases paired : t.offset = 0
  · exact paired
  · obtain ⟨i, here⟩ := List.getElem?_of_mem member
    obtain ⟨u, there, kind, _⟩ := getElem?_of_map_unpaired (map_unpaired_link _ _) here
    obtain ⟨l, inside, ends⟩ := linked.only i t here paired
    obtain ⟨v, atEnd, delimits⟩ := layout.of_end inside ends
    cases there.symm.trans atEnd
    have env : u.kind.env = true :=
      delimits.elim (fun opens => (Family.opener_iff.mp opens).1) fun closes =>
        (Family.closer_iff.mp closes).1
    have curly : u.kind.curly = true := kind ▸
      brace.elim (fun opens => (Family.opener_iff.mp opens).1) fun closes =>
        (Family.closer_iff.mp closes).1
    have plain := (fresh u (List.mem_of_getElem? there)).1.plainBrace curly
    rw [plain.1] at env
    cases env

namespace Preparation

variable {tokens prepared : List Token} (p : Preparation tokens prepared)

/-- The links of one family after environments are collapsed. -/
def strict (f : Family) : List Link :=
  match f with
  | .curly => p.curlies
  | .environment => p.environments

/-- The collapsed list with its environments and braces linked. -/
def nested : List Token :=
  link (link p.collapsed p.environments) p.curlies

/-- The links between all other delimiters. -/
def loose : List Link :=
  looseLinks 0 [] p.nested

/-- The reading of one family, in every list that differs from the collapsed one in offsets only. -/
theorem reads_strict (f : Family) {others : List Token}
    (same : others.map unpaired = p.collapsed.map unpaired) :
    Reads f.mark? 0 [] others (p.strict f) := by
  refine strictLinks_eq_ok_iff.mp ((strictLinks_congr same).mpr ?_)
  cases f
  · exact p.curlies_found
  · exact p.environments_found

theorem prepared_eq_link : prepared = link p.nested p.loose :=
  p.prepared_eq

theorem map_unpaired_nested : p.nested.map unpaired = p.collapsed.map unpaired := by
  rw [nested, map_unpaired_link, map_unpaired_link]

theorem map_unpaired_prepared : prepared.map unpaired = p.collapsed.map unpaired :=
  (congrArg (List.map unpaired) p.prepared_eq_link).trans
    ((map_unpaired_link _ _).trans p.map_unpaired_nested)

variable (coherent : ∀ t ∈ tokens, t.kind.Coherent)

include p coherent

theorem fresh_collapsed : ∀ t ∈ p.collapsed, t.Fresh := by
  rw [p.collapsed_eq]
  exact fresh_collapseEnvironments
    (coherent_of_map_unpaired (map_unpaired_link _ _) (coherent_unlinked coherent))

theorem coherent_prepared : ∀ t ∈ prepared, t.kind.Coherent :=
  coherent_of_map_unpaired p.map_unpaired_prepared fun t member =>
    (p.fresh_collapsed coherent t member).1

theorem linked_nested : Linked p.nested (p.environments ++ p.curlies) :=
  linked_strict (p.fresh_collapsed coherent) p.environments_found p.curlies_found

/-- The pairs of a prepared list: those of the environments, of the braces, and the loose ones. -/
theorem linked_prepared : Linked prepared (p.environments ++ p.curlies ++ p.loose) := by
  have linked := (p.linked_nested coherent).link (looseLinks_scan 0 [] p.nested).layout
    fun t _ loose => loose.elim (·.1) (·.1)
  exact (congrArg (Linked · _) p.prepared_eq_link).mpr linked

end Preparation

end TexFormula.Token
