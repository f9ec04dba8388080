import TexFormula.Proofs.Pairing.Offsets
import TexFormula.Token.Stream

/-! Coherent kinds. Marks combine freely, but no token that comes from a source opens and closes at
once, and a curly brace is nothing besides a brace. Every pass over tokens keeps this, and the
tokens of a source have no partner before the pairing. -/
namespace TexFormula

/-- Marks that go together. -/
structure TokenKind.Coherent (k : TokenKind) : Prop where
  oneSided : ¬ (k.opens = true ∧ k.closes = true)
  plainBrace : k.curly = true →
    k.env = false ∧ k.command = false ∧ k.whitespace = false ∧ k.comment = false

namespace Token

/-- A token whose marks go together and which has no partner. -/
def Fresh (t : Token) : Prop :=
  t.kind.Coherent ∧ t.offset = 0

theorem map_unpaired_of_fresh {tokens : List Token} (fresh : ∀ t ∈ tokens, t.Fresh) :
    tokens.map unpaired = tokens := by
  refine (List.map_congr_left fun t member => ?_).trans (List.map_id _)
  have alone := (fresh t member).2
  cases t
  cases alone
  rfl

/-- Neither blanks nor curly braces call anything. -/
theorem isCommand_of_isBlank {t : Token} (blank : t.isBlank = true) : t.isCommand = false := by
  simp only [isBlank, Bool.and_eq_true, Bool.not_eq_true'] at blank
  simp [isCommand, blank.2]

theorem isCommand_of_curly {t : Token} (coherent : t.kind.Coherent)
    (curly : t.kind.curly = true) : t.isCommand = false := by
  simp [isCommand, (coherent.plainBrace curly).2.1]

/-! ### Reading -/

private theorem fresh_ite {p : Prop} [Decidable p] {yes no : Token × List Char}
    (left : yes.1.Fresh) (right : no.1.Fresh) : (if p then yes else no).1.Fresh := by
  split <;> assumption

theorem fresh_nextCommand (c : Char) (cs : List Char) : (nextCommand c cs).1.Fresh := by
  unfold nextCommand
  split <;> exact ⟨⟨by simp, by simp⟩, rfl⟩

theorem fresh_nextEscaped (cs : List Char) : (nextEscaped cs).1.Fresh := by
  cases cs with
  | nil => exact ⟨⟨by simp [nextEscaped, single], by simp [nextEscaped, single]⟩, rfl⟩
  | cons c cs =>
    have named := fresh_nextCommand c cs
    unfold nextEscaped
    repeat' refine fresh_ite ?_ ?_
    all_goals first
      | exact named
      | exact ⟨⟨by simp [single], by simp [single]⟩, rfl⟩

theorem fresh_nextPlaceholder (cs : List Char) : (nextPlaceholder cs).1.Fresh := by
  cases cs with
  | nil => exact ⟨⟨by simp [nextPlaceholder, single], by simp [nextPlaceholder, single]⟩, rfl⟩
  | cons c cs =>
    unfold nextPlaceholder
    refine fresh_ite ?_ ?_ <;> exact ⟨⟨by simp [single], by simp [single]⟩, rfl⟩

/-- Every token that is read is fresh. -/
theorem fresh_nextFrom (c : Char) (cs : List Char) : (nextFrom c cs).1.Fresh := by
  unfold nextFrom
  repeat' refine fresh_ite ?_ ?_
  all_goals first
    | exact fresh_nextEscaped cs
    | exact fresh_nextPlaceholder cs
    | exact ⟨⟨by simp [single], by simp [single]⟩, rfl⟩

theorem fresh_lex (source : String) : ∀ t ∈ lex source, t.Fresh := by
  unfold lex
  fun_induction lexChars source.toList with
  | case1 => simp
  | case2 c cs ih => exact List.forall_mem_cons.mpr ⟨fresh_nextFrom c cs, ih⟩

theorem coherent_lex (source : String) : ∀ t ∈ lex source, t.kind.Coherent :=
  fun t member => (fresh_lex source t member).1

/-! ### Passes -/

theorem coherent_place (side : Side) {k : TokenKind} (coherent : k.Coherent) :
    (Sizing.place side k).Coherent := by
  cases side <;> exact ⟨by simp [Sizing.place], coherent.plainBrace⟩

theorem coherent_mark (s : Sizing) {k : TokenKind} (coherent : k.Coherent) :
    (s.mark k).Coherent := by
  cases s with
  | fence side => exact coherent_place side ⟨coherent.oneSided, coherent.plainBrace⟩
  | size level side =>
    have placed : (Sizing.place side { k with fence := false }).Coherent :=
      coherent_place side ⟨coherent.oneSided, coherent.plainBrace⟩
    simp only [Sizing.mark]
    split <;> exact ⟨placed.oneSided, placed.plainBrace⟩

theorem coherent_apply (s : Sizing) {t : Token} (coherent : t.kind.Coherent) :
    (s.apply t).kind.Coherent := by
  unfold Sizing.apply
  split
  · exact coherent_mark s ⟨by simp, by simp⟩
  · exact coherent_mark s coherent

theorem offset_apply (s : Sizing) (t : Token) : (s.apply t).offset = t.offset := by
  unfold Sizing.apply
  split <;> rfl

/-- What holds of all tokens and is kept by a sizing command holds of all tokens afterwards. -/
theorem forall_mem_absorbSizing {P : Token → Prop} (applied : ∀ s t, P t → P (Sizing.apply s t))
    {tokens : List Token} (holds : ∀ t ∈ tokens, P t) : ∀ t ∈ absorbSizing tokens, P t := by
  fun_induction absorbSizing tokens with
  | case1 => simp
  | case2 t rest unsized ih =>
    obtain ⟨here, later⟩ := List.forall_mem_cons.mp holds
    exact List.forall_mem_cons.mpr ⟨here, ih later⟩
  | case3 t rest sizing sized atEnd =>
    simpa using (List.forall_mem_cons.mp holds).1
  | case4 t rest sizing sized delimiter after found ih =>
    have kept : ∀ u ∈ delimiter :: after, P u := fun u member =>
      holds u (List.mem_cons_of_mem _
        ((List.dropWhile_suffix (l := rest) isBlank).subset (found ▸ member)))
    obtain ⟨here, later⟩ := List.forall_mem_cons.mp kept
    exact List.forall_mem_cons.mpr ⟨applied sizing delimiter here, ih later⟩

theorem fresh_absorbSizing {tokens : List Token} (fresh : ∀ t ∈ tokens, t.Fresh) :
    ∀ t ∈ absorbSizing tokens, t.Fresh :=
  forall_mem_absorbSizing (fun s t fresh => ⟨coherent_apply s fresh.1, by
    rw [offset_apply]; exact fresh.2⟩) fresh

theorem coherent_absorbSizing {tokens : List Token} (coherent : ∀ t ∈ tokens, t.kind.Coherent) :
    ∀ t ∈ absorbSizing tokens, t.kind.Coherent :=
  forall_mem_absorbSizing (fun s _ coherent => coherent_apply s coherent) coherent

theorem fresh_environmentDelimiter (opens : Bool) (name : List Char) :
    (environmentDelimiter opens name).Fresh := by
  refine ⟨⟨?_, by simp [environmentDelimiter]⟩, rfl⟩
  cases opens <;> simp [environmentDelimiter]

/-- Collapsing leaves no token with a partner. -/
theorem fresh_collapseEnvironments {tokens : List Token}
    (coherent : ∀ t ∈ tokens, t.kind.Coherent) :
    ∀ t ∈ collapseEnvironments tokens, t.Fresh := by
  fun_induction collapseEnvironments tokens with
  | case1 => simp
  | case2 t rest delimits atEnd ih | case4 t rest delimits brace after found plain ih
  | case5 t rest plain ih =>
    obtain ⟨here, later⟩ := List.forall_mem_cons.mp coherent
    exact List.forall_mem_cons.mpr ⟨⟨here, rfl⟩, ih later⟩
  | case3 t rest delimits brace after found opens length name ih =>
    have later : ∀ u ∈ after.drop length, u.kind.Coherent := fun u member =>
      coherent u (List.mem_cons_of_mem _ ((List.dropWhile_suffix (l := rest) isBlank).subset
        (found ▸ List.mem_cons_of_mem _ (List.mem_of_mem_drop member))))
    exact List.forall_mem_cons.mpr ⟨fresh_environmentDelimiter _ _, ih later⟩

/-- Kinds are the same where only partners differ. -/
theorem coherent_of_map_unpaired {tokens others : List Token}
    (same : others.map unpaired = tokens.map unpaired) (coherent : ∀ t ∈ tokens, t.kind.Coherent) :
    ∀ t ∈ others, t.kind.Coherent := by
  intro t member
  have bare : t.unpaired ∈ tokens.map unpaired := same ▸ List.mem_map_of_mem member
  obtain ⟨u, member, equal⟩ := List.mem_map.mp bare
  have kind : u.unpaired.kind = t.unpaired.kind := congrArg Token.kind equal
  rw [kind_unpaired, kind_unpaired] at kind
  exact kind ▸ coherent u member

end Token

end TexFormula
