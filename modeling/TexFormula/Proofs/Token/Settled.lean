import TexFormula.Proofs.Token.Acceptance
import TexFormula.Proofs.Token.Partners
import TexFormula.Proofs.Token.Persistence

/-! Settled lists. Where no sizing command and no begin or end of an environment is left,
preparation only pairs the delimiters: it changes no token but for its offset, it does not depend on
the offsets that the tokens had, and it finds the same pairs again. -/
namespace TexFormula.Token
open Pairing

/-- A token that preparation leaves in its place: neither a sizing command nor the command that
begins or ends an environment. -/
def Settled (t : Token) : Prop :=
  Sizing.ofToken? t = none ∧ t.delimitsEnvironment = false

instance : DecidablePred Settled := fun _ => inferInstanceAs (Decidable (_ ∧ _))

variable {tokens others raw prepared : List Token}

theorem settled_iff {t : Token} :
    t.Settled ↔ (t.isCommand = true → Sizing.named? t.value = none) ∧
      (t.kind.command = true → t.value ≠ "begin" ∧ t.value ≠ "end") := by
  unfold Settled Sizing.ofToken? delimitsEnvironment isNamed
  cases t.kind.command <;> simp

theorem persistent_settled : Persistent Settled := by
  have both := (lasting_command.persistent fun value => Sizing.named? value = none).and
    (lasting_anyCommand.persistent fun value => value ≠ "begin" ∧ value ≠ "end")
  have same : Settled = _ := funext fun t => propext (settled_iff (t := t))
  rw [same]
  exact both

theorem absorbSizing_of_settled (settled : ∀ t ∈ tokens, t.Settled) :
    absorbSizing tokens = tokens := by
  induction tokens with
  | nil => rw [absorbSizing]
  | cons t rest ih =>
    obtain ⟨here, later⟩ := List.forall_mem_cons.mp settled
    rw [absorbSizing, ih later]
    simp only [here.1]

theorem collapseEnvironments_of_settled (settled : ∀ t ∈ tokens, t.Settled) :
    collapseEnvironments tokens = tokens.map unpaired := by
  induction tokens with
  | nil => rw [collapseEnvironments]; rfl
  | cons t rest ih =>
    obtain ⟨here, later⟩ := List.forall_mem_cons.mp settled
    rw [collapseEnvironments, ih later]
    simp only [here.2, Bool.false_eq_true, if_false, List.map_cons]

/-- Preparation changes nothing but offsets. -/
theorem map_unpaired_of_prepare (settled : ∀ t ∈ tokens, t.Settled)
    (done : prepare tokens = .ok prepared) : prepared.map unpaired = tokens.map unpaired := by
  obtain ⟨p⟩ := prepare_eq_ok_iff.mp done
  have bare : (link (unlinked tokens) p.braces).map unpaired = tokens.map unpaired := by
    rw [map_unpaired_link, unlinked, absorbSizing_of_settled settled, List.map_map]
    rfl
  rw [p.map_unpaired_prepared, p.collapsed_eq,
    collapseEnvironments_of_settled (persistent_settled.of_map_unpaired bare settled), bare,
    List.map_map]
  rfl

/-- Preparation does not look at the offsets that are already there. -/
theorem prepare_congr (settled : ∀ t ∈ tokens, t.Settled)
    (same : others.map unpaired = tokens.map unpaired) : prepare others = prepare tokens := by
  have settled' := persistent_settled.of_map_unpaired same settled
  simp only [prepare, absorbSizing_of_settled settled, absorbSizing_of_settled settled', same]

/-- A prepared list is prepared again into itself. -/
theorem prepare_prepared (coherent : ∀ t ∈ raw, t.kind.Coherent)
    (settled : ∀ t ∈ prepared, t.Settled) (done : prepare raw = .ok prepared) :
    prepare prepared = .ok prepared := by
  obtain ⟨p⟩ := prepare_eq_ok_iff.mp done
  have alone := map_unpaired_of_fresh (p.fresh_collapsed coherent)
  have bare : unlinked prepared = p.collapsed := by
    rw [unlinked, absorbSizing_of_settled settled, p.map_unpaired_prepared, alone]
  have again : collapseEnvironments (link (unlinked prepared) p.curlies) = p.collapsed := by
    have same : (link (unlinked prepared) p.curlies).map unpaired = prepared.map unpaired := by
      rw [map_unpaired_link, bare, p.map_unpaired_prepared]
    rw [collapseEnvironments_of_settled (persistent_settled.of_map_unpaired same settled), same,
      p.map_unpaired_prepared, alone]
  exact prepare_eq_ok_iff.mpr ⟨⟨p.curlies, p.collapsed, p.environments, p.curlies,
    bare ▸ p.curlies_found, again.symm, p.environments_found, p.curlies_found, p.uncrossed,
    p.prepared_eq⟩⟩

/-! ### Collapsed lists -/

theorem not_takesGroup (settled : t.Settled) : ¬ TakesGroup t rest := by
  rintro ⟨delimits, _⟩
  rw [settled.2] at delimits
  cases delimits

/-- Behind its first passes a preparation depends on nothing but the collapsed list. -/
theorem prepare_eq_of_collapsed (nested : Nested (wordOf Family.curly.mark? (unlinked tokens)))
    (nested' : Nested (wordOf Family.curly.mark? (unlinked others)))
    (collapsed : Collapsed (unlinked tokens) out) (collapsed' : Collapsed (unlinked others) out) :
    prepare tokens = prepare others := by
  have behind : ∀ {raw : List Token}, Nested (wordOf Family.curly.mark? (unlinked raw)) →
      Collapsed (unlinked raw) out → prepare raw = do
        let paired ← pairStrictly .environment out
        let nested ← pairStrictly .curly paired
        checkNesting nested
        return pairLoosely nested := by
    intro raw nested collapsed
    obtain ⟨braces, found⟩ := strictLinks_ok_iff_nested.mpr nested
    have paired : pairStrictly .curly ((absorbSizing raw).map unpaired) =
        .ok (link (unlinked raw) braces) := pairStrictly_eq_ok_iff.mpr ⟨braces, found, rfl⟩
    have same := collapsed.unique (collapsed_unlinked found)
    rw [prepare, paired, ← same]
    rfl
  rw [behind nested collapsed, behind nested' collapsed']

theorem unlinked_of_settled (alone : tokens.map unpaired = tokens)
    (settled : ∀ t ∈ tokens, t.Settled) : unlinked tokens = tokens := by
  rw [unlinked, absorbSizing_of_settled settled, alone]

/-- Where nothing is left to complete, nothing is collapsed. -/
theorem collapsed_of_settled (settled : ∀ t ∈ tokens, t.Settled) :
    Collapsed tokens (tokens.map unpaired) := by
  induction tokens with
  | nil => exact .nil
  | cons t rest ih =>
    obtain ⟨here, later⟩ := List.forall_mem_cons.mp settled
    exact .keep (not_takesGroup here) (ih later)

/-! ### Pairs -/

/-- A list in which every group knows its end, and only delimiters have a partner. -/
structure Paired (tokens : List Token) : Prop where
  spanned : Spanned tokens
  alone : ∀ t ∈ tokens, t.kind.opens = false → t.kind.closes = false → t.offset = 0

theorem Paired.suffix {front : List Token} (paired : Paired (front ++ tokens)) : Paired tokens :=
  ⟨paired.spanned.suffix, fun t member => paired.alone t (List.mem_append_right front member)⟩

theorem paired_of_prepare (coherent : ∀ t ∈ raw, t.kind.Coherent)
    (done : prepare raw = .ok prepared) : Paired prepared := by
  obtain ⟨p⟩ := prepare_eq_ok_iff.mp done
  refine ⟨spanned_of_linked (p.linked_prepared coherent)
    (p.reads_strict .curly p.map_unpaired_prepared) fun l member => ?_, ?_⟩
  · exact List.mem_append_left _ (List.mem_append_right _ member)
  · intro t member opens closes
    by_contra paired
    obtain ⟨i, found⟩ := List.getElem?_of_mem member
    obtain ⟨j, u, _, _, _, faces⟩ := (matched_of_prepare coherent done).partner i t found paired
    split at faces
    · exact absurd (opens.symm.trans faces.1) Bool.false_ne_true
    · exact absurd (closes.symm.trans faces.2.2.1) Bool.false_ne_true

end TexFormula.Token
