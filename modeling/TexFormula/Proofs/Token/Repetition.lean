import TexFormula.Proofs.Token.Settled

/-! Preparing a prepared list. The passes that pair delimiters find the same pairs again, and no
begin or end of an environment comes to stand before a group. A sizing command can be left, though:
one that stood behind another sizing command is marked like a delimiter and stays a command, and a
second preparation puts it into the next token. So the second preparation changes nothing exactly if
no sizing command but the last token is left (`prepare_tokenized_iff`). -/
namespace TexFormula.Token
open Pairing

variable {tokens out rest prepared : List Token}

/-! ### Sizing commands -/

/-- A sizing command that is the last token stays where it is. -/
theorem absorbSizing_of_last (unsized : ∀ t ∈ tokens.dropLast, Sizing.ofToken? t = none) :
    absorbSizing tokens = tokens := by
  induction tokens with
  | nil => rw [absorbSizing]
  | cons t rest ih =>
    cases rest with
    | nil =>
      rw [absorbSizing, absorbSizing]
      cases Sizing.ofToken? t <;> rfl
    | cons u rest =>
      obtain ⟨here, later⟩ := List.forall_mem_cons.mp unsized
      rw [absorbSizing, ih later]
      simp only [here]

/-- A sizing command that is not the last token is put into one, which makes the list shorter. -/
theorem length_absorbSizing (tokens : List Token) :
    (absorbSizing tokens).length < tokens.length ∨ (absorbSizing tokens).length = tokens.length ∧
      ∀ t ∈ tokens.dropLast, Sizing.ofToken? t = none := by
  fun_induction absorbSizing tokens with
  | case1 => exact .inr ⟨rfl, List.forall_mem_nil _⟩
  | case2 t rest here ih =>
    rcases ih with shorter | ⟨same, later⟩
    · exact .inl (Nat.succ_lt_succ shorter)
    · refine .inr ⟨congrArg Nat.succ same, ?_⟩
      cases rest with
      | nil => exact List.forall_mem_nil _
      | cons u rest => exact List.forall_mem_cons.mpr ⟨here, later⟩
  | case3 t rest sizing sized atEnd =>
    cases rest with
    | nil => exact .inr ⟨rfl, List.forall_mem_nil _⟩
    | cons u rest => exact .inl (Nat.succ_lt_succ (Nat.succ_pos _))
  | case4 t rest sizing sized delimiter after found ih =>
    have behind := (List.dropWhile_suffix (l := rest) isBlank).length_le
    have bound : (absorbSizing after).length ≤ after.length := by
      rcases ih with shorter | ⟨same, _⟩ <;> omega
    rw [found, List.length_cons] at behind
    refine .inl ?_
    rw [List.length_cons, List.length_cons]
    omega

/-! ### Environments -/

theorem length_collapseEnvironments_le (tokens : List Token) :
    (collapseEnvironments tokens).length ≤ tokens.length := by
  fun_induction collapseEnvironments tokens with
  | case1 => exact Nat.le_refl _
  | case2 t rest _ _ ih | case4 t rest _ _ _ _ _ ih | case5 t rest _ ih =>
    exact Nat.succ_le_succ ih
  | case3 t rest delimits brace after found opens length name ih =>
    have behind := (List.dropWhile_suffix (l := rest) isBlank).length_le
    rw [found, List.length_cons] at behind
    simp only [List.length_cons, List.length_drop] at ih ⊢
    omega

/-- A group at the start of a collapsed list, blanks apart, was there before. -/
theorem Collapsed.group {brace : Token} {after : List Token} (collapsed : Collapsed tokens out)
    (found : out.dropWhile isBlank = brace :: after) (opens : Family.curly.Opens brace) :
    ∃ brace after, tokens.dropWhile isBlank = brace :: after ∧ Family.curly.Opens brace := by
  induction collapsed with
  | nil => cases found
  | @keep t rest out _ _ ih =>
    cases blank : t.isBlank with
    | true =>
      rw [List.dropWhile_cons_of_pos blank]
      rw [List.dropWhile_cons_of_pos (p := isBlank) (a := t.unpaired) blank] at found
      exact ih found
    | false =>
      have filled : ¬ t.isBlank = true := by rw [blank]; exact Bool.false_ne_true
      rw [List.dropWhile_cons_of_neg (p := isBlank) (a := t.unpaired) filled] at found
      refine ⟨t, rest, List.dropWhile_cons_of_neg filled, ?_⟩
      cases (List.cons.inj found).1
      exact opens
  | @delimiter t _ _ name _ _ out _ _ _ _ _ _ _ =>
    -- A group that is collapsed leaves a delimiter of an environment, and no brace.
    have plain : ¬ (environmentDelimiter (t.value == "begin") (spellingAll name).toList).isBlank =
        true := Bool.false_ne_true
    rw [List.dropWhile_cons_of_neg plain] at found
    cases (List.cons.inj found).1
    exact absurd opens.1 Bool.false_ne_true

/-- What has been collapsed is collapsed into itself. -/
theorem Collapsed.again (collapsed : Collapsed tokens out) : Collapsed out out := by
  induction collapsed with
  | nil => exact .nil
  | @keep t rest out plain more ih =>
    refine .keep (t := t.unpaired) ?_ ih
    rintro ⟨delimits, brace, after, found, opens⟩
    exact plain ⟨delimits, more.group found opens⟩
  | @delimiter t _ _ name _ _ out _ _ _ _ _ _ ih =>
    refine .keep (t := environmentDelimiter (t.value == "begin") (spellingAll name).toList) ?_ ih
    rintro ⟨delimits, _⟩
    exact absurd delimits Bool.false_ne_true

/-! ### All passes -/

theorem Preparation.length_prepared_le (p : Preparation tokens prepared) :
    prepared.length ≤ (absorbSizing tokens).length := by
  have size := congrArg List.length p.map_unpaired_prepared
  have source := congrArg List.length (map_unpaired_link (unlinked tokens) p.braces)
  have shorter := length_collapseEnvironments_le (link (unlinked tokens) p.braces)
  rw [List.length_map, List.length_map, p.collapsed_eq] at size
  rw [List.length_map, List.length_map, unlinked, List.length_map] at source
  unfold unlinked at size shorter
  omega

/-- A list that is prepared into itself is as long as before. -/
theorem unsized_of_prepare_self (same : prepare tokens = .ok tokens) :
    ∀ t ∈ tokens.dropLast, Sizing.ofToken? t = none := by
  obtain ⟨p⟩ := prepare_eq_ok_iff.mp same
  have long := p.length_prepared_le
  rcases length_absorbSizing tokens with shorter | ⟨_, unsized⟩
  · omega
  · exact unsized

/-- Where no sizing command is to be put into a token, the other passes find what they found. -/
theorem prepare_self_of_unsized {raw : List Token} (coherent : ∀ t ∈ raw, t.kind.Coherent)
    (unsized : ∀ t ∈ prepared.dropLast, Sizing.ofToken? t = none)
    (done : prepare raw = .ok prepared) : prepare prepared = .ok prepared := by
  obtain ⟨p⟩ := prepare_eq_ok_iff.mp done
  have alone := map_unpaired_of_fresh (p.fresh_collapsed coherent)
  have bare : unlinked prepared = p.collapsed := by
    rw [unlinked, absorbSizing_of_last unsized, p.map_unpaired_prepared, alone]
  have found : strictLinks .curly 0 [] (unlinked prepared) = .ok p.curlies :=
    bare ▸ p.curlies_found
  have collapsed : Collapsed (unlinked raw) p.collapsed :=
    p.collapsed_eq ▸ collapsed_unlinked p.braces_found
  have again : collapseEnvironments (link (unlinked prepared) p.curlies) = p.collapsed := by
    -- There is one list only that a list collapses into.
    refine Collapsed.unique ?_ (collapsed_unlinked found)
    exact bare.symm ▸ collapsed.again
  exact prepare_eq_ok_iff.mpr ⟨⟨p.curlies, p.collapsed, p.environments, p.curlies, found,
    again.symm, p.environments_found, p.curlies_found, p.uncrossed, p.prepared_eq⟩⟩

/-- The tokens of a source are prepared again into themselves exactly if none of them is a sizing
command, but for the last one. -/
theorem prepare_tokenized_iff {source : String} (done : tokenize source = .ok tokens) :
    prepare tokens = .ok tokens ↔ ∀ t ∈ tokens.dropLast, Sizing.ofToken? t = none :=
  ⟨unsized_of_prepare_self, fun unsized =>
    prepare_self_of_unsized (coherent_lex source) unsized done⟩

theorem prepare_tokenized_iff_fence :
    ∃ tokens, tokenize "\\left(a\\right" = .ok tokens ∧ prepare tokens = .ok tokens := by
  have again : ∀ tokens, tokenize "\\left(a\\right" = .ok tokens →
      (∀ t ∈ tokens.dropLast, Sizing.ofToken? t = none) → prepare tokens = .ok tokens :=
    fun tokens done => (prepare_tokenized_iff done).mpr
  exact ⟨_, by cbv, again _ (by cbv) (by decide)⟩

/-- A fence command behind a size command is put into the parenthesis by the second preparation. -/
theorem prepared_fence_changes :
    ∃ tokens, tokenize "\\big\\left(a\\right)" = .ok tokens ∧ prepare tokens ≠ .ok tokens := by
  refine ⟨_, by cbv, fun same => ?_⟩
  exact absurd (unsized_of_prepare_self same) (by decide)

end TexFormula.Token
