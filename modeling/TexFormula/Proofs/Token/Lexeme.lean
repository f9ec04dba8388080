import TexFormula.Decimal
import TexFormula.Proofs.Token.Persistence

/-! Tokens as they are read from a source. Of all the kinds that marks can be combined to a source
spells only some. It spells no mark of a macro that depends on itself: such a mark comes from a
table of declared macros and from nowhere else. It spells no sized or fenced command either, and
every placeholder that it spells carries a number. -/
namespace TexFormula.Token

/-- The kinds of token that a source can spell. -/
def lexemeKinds : List TokenKind :=
  [{ letter := true }, { number := true }, { char := true }, { script := true },
   { reserved := true }, { argument := true }, { comment := true }, { whitespace := true },
   { command := true }, { command := true, star := true }, { whitespace := true, command := true },
   { char := true, escaped := true }, { curly := true, opens := true },
   { curly := true, closes := true }, { opens := true }, { closes := true }, { fence := true },
   { opens := true, escaped := true, fence := true },
   { closes := true, escaped := true, fence := true }, { fence := true, escaped := true }]

/-- A token that a source can spell. A placeholder carries a number. -/
structure Lexeme (t : Token) : Prop where
  kind : t.kind ∈ lexemeKinds
  number : t.kind.argument = true → ∃ n, Decimal.readCount? t.value = some n

/-! ### Reading -/

/-- Most kinds are no placeholders, so that nothing has to be known about the value. -/
theorem lexeme_of_kind {t : Token} (kind : lexemeKinds.contains t.kind = true)
    (plain : t.kind.argument = false) : t.Lexeme :=
  ⟨List.contains_iff_mem.mp kind, by simp [plain]⟩

private theorem lexeme_ite {p : Prop} [Decidable p] {yes no : Token × List Char}
    (left : yes.1.Lexeme) (right : no.1.Lexeme) : (if p then yes else no).1.Lexeme := by
  split <;> assumption

theorem lexeme_nextCommand (c : Char) (cs : List Char) : (nextCommand c cs).1.Lexeme := by
  unfold nextCommand
  split <;> exact lexeme_of_kind rfl rfl

theorem lexeme_nextEscaped (cs : List Char) : (nextEscaped cs).1.Lexeme := by
  cases cs with
  | nil => exact lexeme_of_kind rfl rfl
  | cons c cs =>
    have named := lexeme_nextCommand c cs
    unfold nextEscaped
    repeat' refine lexeme_ite ?_ ?_
    all_goals first
      | exact named
      | exact lexeme_of_kind rfl rfl

/-- A digit by itself is a number. -/
theorem readCount?_singleton {c : Char} (digit : c.isDigit = true) :
    ∃ n, Decimal.readCount? (String.singleton c) = some n := by
  have unsigned : Decimal.countDigits [c] = [c] := by
    unfold Decimal.countDigits
    split
    case h_1 signed => cases signed; cases digit
    case h_2 => rfl
  have small : Decimal.ofDigits [c] ≤ Decimal.largestCount := by
    have bounds : 48 ≤ c.val ∧ c.val ≤ 57 := by simpa [Char.isDigit] using digit
    have last : c.toNat ≤ 57 := UInt32.le_iff_toNat_le.mp bounds.2
    have value : Decimal.ofDigits [c] = c.toNat - 48 := Nat.zero_add _
    have largest : 9 ≤ Decimal.largestCount := by decide
    omega
  have digits : [c].all Char.isDigit = true := by simp [digit]
  refine ⟨Decimal.ofDigits [c], ?_⟩
  rw [Decimal.readCount?, String.toList_singleton, unsigned,
    if_pos ⟨List.cons_ne_nil _ _, digits, small⟩]

theorem lexeme_nextPlaceholder (cs : List Char) : (nextPlaceholder cs).1.Lexeme := by
  cases cs with
  | nil => exact lexeme_of_kind rfl rfl
  | cons c cs =>
    cases digit : c.isDigit with
    | true =>
      simp only [nextPlaceholder, digit, if_true]
      exact ⟨List.contains_iff_mem.mp rfl, fun _ => readCount?_singleton digit⟩
    | false =>
      simp only [nextPlaceholder, digit, Bool.false_eq_true, if_false]
      exact lexeme_of_kind rfl rfl

theorem lexeme_nextFrom (c : Char) (cs : List Char) : (nextFrom c cs).1.Lexeme := by
  unfold nextFrom
  repeat' refine lexeme_ite ?_ ?_
  all_goals first
    | exact lexeme_nextEscaped cs
    | exact lexeme_nextPlaceholder cs
    | exact lexeme_of_kind rfl rfl

/-- A source spells nothing else. -/
theorem lexeme_lex (source : String) : ∀ t ∈ lex source, t.Lexeme := by
  unfold lex
  fun_induction lexChars source.toList with
  | case1 => simp
  | case2 c cs ih => exact List.forall_mem_cons.mpr ⟨lexeme_nextFrom c cs, ih⟩

/-! ### What no source spells -/

theorem Lexeme.acyclic {t : Token} (lexeme : t.Lexeme) : t.kind.cyclic = false := by
  have none : ∀ k ∈ lexemeKinds, k.cyclic = false := by decide
  exact none t.kind lexeme.kind

/-- A sizing command leaves a mark on what it stands before that no source spells for a command. -/
theorem mark_not_mem_lexemeKinds (s : Sizing) {k : TokenKind} (command : k.command = true) :
    s.mark k ∉ lexemeKinds := by
  have plain : ∀ k ∈ lexemeKinds, k.command = true → k.fence = false ∧
      k.size1 = false ∧ k.size2 = false ∧ k.size3 = false ∧ k.size4 = false := by decide
  intro member
  have kept : (s.mark k).command = true := by
    obtain ⟨_, _, _, _, _, _, _, same⟩ := mark_eq s k
    rw [same]
    exact command
  obtain ⟨unfenced, size1, size2, size3, size4⟩ := plain _ member kept
  match s with
  | .fence .left | .fence .right | .fence .middle => cases unfenced
  | .size 0 _ => cases size1
  | .size 1 _ => cases size2
  | .size 2 _ => cases size3
  | .size 3 _ => cases size4

/-- No source stands for a macro that depends on itself. -/
theorem acyclic_of_tokenize {source : String} {tokens : List Token}
    (read : tokenize source = .ok tokens) : ∀ t ∈ tokens, t.kind.cyclic = false := by
  have unmarked : ∀ t ∈ lex source, t.kind.cyclic = true → False := fun t member => by
    simp [(lexeme_lex source t member).acyclic]
  have none := (lasting_cyclic.persistent fun _ => False).prepare unmarked read
  exact fun t member => by simpa using none t member

/-- A placeholder of a prepared source carries a number. -/
theorem numbered_of_tokenize {source : String} {tokens : List Token}
    (read : tokenize source = .ok tokens) :
    ∀ t ∈ tokens, t.kind.argument = true → ∃ n, Decimal.readCount? t.value = some n := by
  have lasting : Lasting TokenKind.argument :=
    ⟨fun s k => by obtain ⟨_, _, _, _, _, _, _, same⟩ := mark_eq s k; rw [same], rfl,
      fun _ _ => rfl⟩
  exact (lasting.persistent fun value => ∃ n, Decimal.readCount? value = some n).prepare
    (fun t member => (lexeme_lex source t member).number) read

end TexFormula.Token
