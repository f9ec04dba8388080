import TexFormula.Proofs.Token.Preparation

/-! Properties of tokens that last. Preparation changes partners, marks delimiters behind sizing
commands and makes delimiters of environments; a property of tokens that takes no harm from these
holds of a prepared list if it holds of the list before. -/
namespace TexFormula.Token
open Pairing

/-- A property of tokens that does not depend on partners, is kept by sizing commands and holds of
all delimiters of environments. -/
structure Persistent (Q : Token → Prop) : Prop where
  unpaired : ∀ {t u : Token}, t.unpaired = u.unpaired → Q t → Q u
  sized : ∀ (s : Sizing) {t : Token}, Q t → Q (s.apply t)
  delimiter : ∀ (opens : Bool) (name : List Char), Q (environmentDelimiter opens name)

variable {Q : Token → Prop} {tokens others prepared : List Token}

/-- Where only partners differ, the same properties last. -/
theorem Persistent.of_map_unpaired (persistent : Persistent Q)
    (same : others.map Token.unpaired = tokens.map Token.unpaired) (holds : ∀ t ∈ tokens, Q t) :
    ∀ t ∈ others, Q t := by
  intro t member
  have bare : t.unpaired ∈ tokens.map Token.unpaired := same ▸ List.mem_map_of_mem member
  obtain ⟨u, inside, equal⟩ := List.mem_map.mp bare
  exact persistent.unpaired equal (holds u inside)

theorem Persistent.map_unpaired (persistent : Persistent Q) (holds : ∀ t ∈ tokens, Q t) :
    ∀ t ∈ tokens.map Token.unpaired, Q t :=
  persistent.of_map_unpaired (by rw [List.map_map]; rfl) holds

theorem Persistent.collapse (persistent : Persistent Q) (holds : ∀ t ∈ tokens, Q t) :
    ∀ t ∈ collapseEnvironments tokens, Q t := by
  fun_induction collapseEnvironments tokens with
  | case1 => simp
  | case2 t rest delimits atEnd ih | case4 t rest delimits brace after found plain ih
  | case5 t rest plain ih =>
    obtain ⟨here, later⟩ := List.forall_mem_cons.mp holds
    exact List.forall_mem_cons.mpr ⟨persistent.unpaired (t := t) rfl here, ih later⟩
  | case3 t rest delimits brace after found opens length name ih =>
    have behind : ∀ u ∈ brace :: after, Q u := fun u member =>
      holds u (List.mem_cons_of_mem _
        ((List.dropWhile_suffix (l := rest) isBlank).subset (found ▸ member)))
    exact List.forall_mem_cons.mpr ⟨persistent.delimiter _ _, ih fun u member =>
      behind u (List.mem_cons_of_mem _ (List.mem_of_mem_drop member))⟩

/-- A property that lasts holds of a prepared list if it holds of the list before. -/
theorem Persistent.prepare (persistent : Persistent Q) (holds : ∀ t ∈ tokens, Q t)
    (done : prepare tokens = .ok prepared) : ∀ t ∈ prepared, Q t := by
  obtain ⟨p⟩ := prepare_eq_ok_iff.mp done
  have sized : ∀ t ∈ absorbSizing tokens, Q t :=
    forall_mem_absorbSizing (fun s t here => persistent.sized s here) holds
  have linked : ∀ t ∈ link (unlinked tokens) p.braces, Q t :=
    persistent.of_map_unpaired (map_unpaired_link _ _) (persistent.map_unpaired sized)
  refine persistent.of_map_unpaired p.map_unpaired_prepared ?_
  rw [p.collapsed_eq]
  exact persistent.collapse linked

theorem persistent_true : Persistent fun _ => True :=
  ⟨fun _ _ => trivial, fun _ _ _ => trivial, fun _ _ => trivial⟩

theorem persistent_coherent : Persistent fun t => t.kind.Coherent where
  unpaired same coherent := by
    have kind := congrArg Token.kind same
    rw [kind_unpaired, kind_unpaired] at kind
    exact kind ▸ coherent
  sized s _ coherent := coherent_apply s coherent
  delimiter opens name := (fresh_environmentDelimiter opens name).1

theorem Persistent.and {P : Token → Prop} (first : Persistent P) (second : Persistent Q) :
    Persistent fun t => P t ∧ Q t where
  unpaired same holds := ⟨first.unpaired same holds.1, second.unpaired same holds.2⟩
  sized s _ holds := ⟨first.sized s holds.1, second.sized s holds.2⟩
  delimiter opens name := ⟨first.delimiter opens name, second.delimiter opens name⟩

/-! ### Marks that last -/

/-- A mark that no sizing command sets or takes away, and that no delimiter made in a preparation
has. -/
structure Lasting (mark : TokenKind → Bool) : Prop where
  sized : ∀ (s : Sizing) (k : TokenKind), mark (s.mark k) = mark k
  null : mark { null := true } = false
  delimiter : ∀ opens star : Bool,
    mark { env := true, opens, closes := !opens, star } = false

/-- What the values of all tokens with such a mark have in common lasts. -/
theorem Lasting.persistent {mark : TokenKind → Bool} (lasting : Lasting mark)
    (P : String → Prop) : Persistent fun t => mark t.kind = true → P t.value where
  unpaired := by
    intro t u same holds marked
    have kind : t.kind = u.kind := congrArg (·.kind) same
    have value : t.value = u.value := congrArg (·.value) same
    exact value ▸ holds (kind ▸ marked)
  sized := by
    intro s t holds marked
    unfold Sizing.apply at marked ⊢
    split at marked
    · rw [lasting.sized, lasting.null] at marked
      cases marked
    case isFalse plain =>
      rw [lasting.sized] at marked
      rw [if_neg plain]
      exact holds marked
  delimiter := by
    intro opens name marked
    rw [environmentDelimiter, lasting.delimiter] at marked
    cases marked

/-- A sizing command decides on the side, the fence and the size of a delimiter, and on nothing
else. -/
theorem mark_eq (s : Sizing) (k : TokenKind) : ∃ opens closes fence size1 size2 size3 size4,
    s.mark k = { k with opens, closes, fence, size1, size2, size3, size4 } := by
  rcases s with side | ⟨level, side⟩ <;> cases side
  all_goals first
    | exact ⟨_, _, _, _, _, _, _, rfl⟩
    | (match level with
        | 0 | 1 | 2 | 3 => exact ⟨_, _, _, _, _, _, _, rfl⟩)

theorem lasting_command : Lasting fun k => k.command && !k.whitespace where
  sized s k := by obtain ⟨_, _, _, _, _, _, _, same⟩ := mark_eq s k; rw [same]
  null := rfl
  delimiter _ _ := rfl

/-- The command made of a backslash and a blank is among these. -/
theorem lasting_anyCommand : Lasting TokenKind.command where
  sized s k := by obtain ⟨_, _, _, _, _, _, _, same⟩ := mark_eq s k; rw [same]
  null := rfl
  delimiter _ _ := rfl

theorem lasting_cyclic : Lasting TokenKind.cyclic where
  sized s k := by obtain ⟨_, _, _, _, _, _, _, same⟩ := mark_eq s k; rw [same]
  null := rfl
  delimiter _ _ := rfl

end TexFormula.Token
