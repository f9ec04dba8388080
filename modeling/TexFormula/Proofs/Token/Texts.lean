import Mathlib.Data.List.TakeWhile
import TexFormula.Proofs.Token.Lexeme

/-! Texts in place of commands. A command that stands for a text is replaced by what is read off the
text. Sizing commands can do their work before the replacement or behind it, as long as none of them
stands before a command with a text and no text ends in one. -/
namespace TexFormula.Token

/-- The text that a token stands for, if it is a command that stands for one. -/
def textOf? (text? : String → Option String) (t : Token) : Option String :=
  if t.isCommand then text? t.value else none

/-- The tokens with every command that stands for a text replaced by what is read off the text. -/
def inline (text? : String → Option String) (read : String → List Token) (tokens : List Token) :
    List Token :=
  tokens.flatMap fun t => (textOf? text? t).elim [t] read

/-- Whether a token stands for a text. -/
def hasText (text? : String → Option String) (t : Token) : Bool :=
  (textOf? text? t).isSome

variable {text? : String → Option String} {read : String → List Token} {text : String} {t : Token}
  {tokens front rest out : List Token}

/-! ### Tokens with a text -/

@[simp] theorem inline_nil : inline text? read [] = [] := rfl

@[simp] theorem inline_append :
    inline text? read (front ++ rest) = inline text? read front ++ inline text? read rest :=
  List.flatMap_append

theorem inline_cons_of_some (stands : textOf? text? t = some text) :
    inline text? read (t :: rest) = read text ++ inline text? read rest := by
  rw [inline, List.flatMap_cons, stands]
  rfl

theorem inline_cons_of_none (bare : textOf? text? t = none) :
    inline text? read (t :: rest) = t :: inline text? read rest := by
  rw [inline, List.flatMap_cons, bare]
  rfl

theorem hasText_eq_false : hasText text? t = false ↔ textOf? text? t = none := by
  simp [hasText]

theorem hasText_of_some (stands : textOf? text? t = some text) : hasText text? t = true := by
  rw [hasText, stands]
  rfl

theorem inline_of_bare (bare : ∀ t ∈ tokens, hasText text? t = false) :
    inline text? read tokens = tokens := by
  induction tokens with
  | nil => rfl
  | cons t rest ih =>
    obtain ⟨here, later⟩ := List.forall_mem_cons.mp bare
    rw [inline_cons_of_none (hasText_eq_false.mp here), ih later]

theorem isCommand_of_hasText (stands : hasText text? t = true) : t.isCommand = true := by
  cases command : t.isCommand with
  | true => rfl
  | false => simp [hasText, textOf?, command] at stands

@[simp] theorem hasText_unpaired : hasText text? t.unpaired = hasText text? t := rfl

theorem hasText_of_isBlank (blank : t.isBlank = true) : hasText text? t = false := by
  simp [hasText, textOf?, isCommand_of_isBlank blank]

theorem hasText_of_curly (coherent : t.kind.Coherent) (curly : t.kind.curly = true) :
    hasText text? t = false := by
  simp [hasText, textOf?, isCommand_of_curly coherent curly]

/-- A sizing command changes neither the name of a command nor that it is one. -/
theorem hasText_apply (s : Sizing) (t : Token) : hasText text? (s.apply t) = hasText text? t := by
  have same : (s.apply t).isCommand = t.isCommand ∧
      (t.isCommand = true → (s.apply t).value = t.value) := by
    unfold Sizing.apply
    split
    case isTrue stop =>
      simp only [Bool.and_eq_true, Bool.not_eq_true'] at stop
      refine ⟨?_, fun command => ?_⟩
      · rw [isCommand, lasting_command.sized, isCommand, stop.2]
        rfl
      · simp [isCommand, stop.2] at command
    case isFalse => exact ⟨lasting_command.sized s t.kind, fun _ => rfl⟩
  unfold hasText textOf?
  rw [same.1]
  split
  case isTrue command => rw [same.2 command]
  case isFalse => rfl

/-- Blanks stand for themselves, so that the first token behind them stays the first. -/
theorem dropWhile_inline {first : Token} {after : List Token}
    (found : rest.dropWhile isBlank = first :: after) (bare : hasText text? first = false) :
    (inline text? read rest).dropWhile isBlank = first :: inline text? read after := by
  induction rest with
  | nil => cases found
  | cons t rest ih =>
    cases blank : t.isBlank with
    | true =>
      rw [List.dropWhile_cons_of_pos blank] at found
      rw [inline_cons_of_none (hasText_eq_false.mp (hasText_of_isBlank blank)),
        List.dropWhile_cons_of_pos blank, ih found]
    | false =>
      rw [List.dropWhile_cons_of_neg (by simp [blank])] at found
      cases found
      rw [inline_cons_of_none (hasText_eq_false.mp bare),
        List.dropWhile_cons_of_neg (by simp [blank])]

theorem countP_dropWhile_isBlank :
    (tokens.dropWhile isBlank).countP (hasText text?) = tokens.countP (hasText text?) := by
  induction tokens with
  | nil => rfl
  | cons t rest ih =>
    cases blank : t.isBlank with
    | false => rw [List.dropWhile_cons_of_neg (by simp [blank])]
    | true =>
      rw [List.dropWhile_cons_of_pos blank, ih,
        List.countP_cons_of_neg (by simp [hasText_of_isBlank blank])]

/-- A token behind the replacement stood there before, or comes from a text. -/
theorem mem_inline (member : t ∈ inline text? read tokens) :
    t ∈ tokens ∧ textOf? text? t = none ∨
      ∃ u ∈ tokens, ∃ text, textOf? text? u = some text ∧ t ∈ read text := by
  obtain ⟨u, inside, member⟩ := List.mem_flatMap.mp member
  cases stands : textOf? text? u with
  | none =>
    rw [stands] at member
    cases List.mem_singleton.mp member
    exact .inl ⟨inside, stands⟩
  | some text =>
    rw [stands] at member
    exact .inr ⟨u, inside, text, stands, member⟩

/-! ### Sizing -/

/-- Sizing commands take tokens away and put none in their place. -/
theorem countP_absorbSizing_le :
    (absorbSizing tokens).countP (hasText text?) ≤ tokens.countP (hasText text?) := by
  fun_induction absorbSizing tokens with
  | case1 => exact Nat.le_refl _
  | case2 t rest unsized ih =>
    rw [List.countP_cons, List.countP_cons]
    exact Nat.add_le_add_right ih _
  | case3 t rest sizing sized atEnd =>
    rw [List.countP_cons, List.countP_cons]
    exact Nat.add_le_add_right (Nat.zero_le _) _
  | case4 t rest sizing sized delimiter after found ih =>
    have behind : rest.countP (hasText text?) = (delimiter :: after).countP (hasText text?) := by
      rw [← found, countP_dropWhile_isBlank]
    rw [List.countP_cons, List.countP_cons, hasText_apply, behind, List.countP_cons]
    omega

theorem absorbSizing_of_sized {sizing : Sizing} {delimiter : Token} {after : List Token}
    (sized : Sizing.ofToken? t = some sizing)
    (found : rest.dropWhile isBlank = delimiter :: after) :
    absorbSizing (t :: rest) = sizing.apply delimiter :: absorbSizing after := by
  rw [absorbSizing, sized]
  simp only
  split
  case h_1 atEnd => rw [atEnd] at found; cases found
  case h_2 found' => cases found'.symm.trans found; rfl

theorem absorbSizing_of_end {sizing : Sizing} (sized : Sizing.ofToken? t = some sizing)
    (atEnd : rest.dropWhile isBlank = []) : absorbSizing (t :: rest) = [t] := by
  rw [absorbSizing, sized]
  simp only
  split
  case h_1 => rfl
  case h_2 found => rw [atEnd] at found; cases found

theorem absorbSizing_of_unsized (unsized : Sizing.ofToken? t = none) :
    absorbSizing (t :: rest) = t :: absorbSizing rest := by
  rw [absorbSizing, unsized]

/-- Nothing in front changes the tokens behind if the front does not end in a sizing command. -/
theorem absorbSizing_append
    (ends : ∀ t, [t] <:+ absorbSizing front → Sizing.ofToken? t = none) :
    absorbSizing (front ++ rest) = absorbSizing front ++ absorbSizing rest := by
  fun_induction absorbSizing front with
  | case1 => rfl
  | case2 t tail unsized ih =>
    have later := ih fun u last => ends u (last.trans (List.suffix_cons _ _))
    rw [List.cons_append, absorbSizing_of_unsized unsized, List.cons_append, ← later]
  | case3 t tail sizing sized atEnd =>
    rw [ends t List.suffix_rfl] at sized
    cases sized
  | case4 t tail sizing sized delimiter after found ih =>
    have behind : (tail ++ rest).dropWhile isBlank = delimiter :: (after ++ rest) := by
      rw [List.dropWhile_append, found]
      rfl
    have later := ih fun u last => ends u (last.trans (List.suffix_cons _ _))
    rw [List.cons_append, absorbSizing_of_sized sized behind, List.cons_append, ← later]

/-- A command behind a sizing command is no longer one that a source can spell. -/
theorem apply_not_mem_lexemeKinds (s : Sizing) (stands : hasText text? t = true) :
    (s.apply t).kind ∉ lexemeKinds := by
  have command := isCommand_of_hasText stands
  simp only [isCommand, Bool.and_eq_true] at command
  have marked : (s.apply t).kind = s.mark t.kind := by simp [Sizing.apply, command.1]
  rw [marked]
  exact mark_not_mem_lexemeKinds s command.1

/-- Sizing commands do their work in the text around and inside the texts by themselves, if none of
them stands before a command with a text. -/
theorem absorbSizing_inline
    (ends : ∀ t ∈ tokens, ∀ text, textOf? text? t = some text →
      ∀ u, [u] <:+ absorbSizing (lex text) → Sizing.ofToken? u = none)
    (counted : (absorbSizing tokens).countP (hasText text?) = tokens.countP (hasText text?))
    (clear : ∀ t ∈ absorbSizing tokens, hasText text? t = true →
      Sizing.ofToken? t = none ∧ t.kind ∈ lexemeKinds) :
    absorbSizing (inline text? lex tokens) =
      inline text? (fun text => absorbSizing (lex text)) (absorbSizing tokens) := by
  fun_induction absorbSizing tokens with
  | case1 => rw [inline_nil, absorbSizing]; rfl
  | case2 t rest unsized ih =>
    obtain ⟨here, later⟩ := List.forall_mem_cons.mp ends
    have counted_rest := by simpa only [List.countP_cons, Nat.add_right_cancel_iff] using counted
    have inside := ih later counted_rest (List.forall_mem_cons.mp clear).2
    cases stands : textOf? text? t with
    | none =>
      rw [inline_cons_of_none stands, inline_cons_of_none stands, absorbSizing_of_unsized unsized,
        inside]
    | some text =>
      rw [inline_cons_of_some stands, inline_cons_of_some stands,
        absorbSizing_append (here text stands), inside]
  | case3 t rest sizing sized atEnd =>
    have bare : hasText text? t = false := by
      refine Bool.eq_false_iff.mpr fun stands => ?_
      cases (clear t List.mem_cons_self stands).1.symm.trans sized
    have blanks : ∀ u ∈ rest, hasText text? u = false := fun u member =>
      hasText_of_isBlank (List.dropWhile_eq_nil_iff.mp atEnd u member)
    rw [inline_of_bare (List.forall_mem_cons.mpr ⟨bare, blanks⟩),
      inline_of_bare (List.forall_mem_singleton.mpr bare), absorbSizing_of_end sized atEnd]
  | case4 t rest sizing sized delimiter after found ih =>
    have fewer : (absorbSizing after).countP (hasText text?) ≤ after.countP (hasText text?) :=
      countP_absorbSizing_le
    have behind : rest.countP (hasText text?) = (delimiter :: after).countP (hasText text?) := by
      rw [← found, countP_dropWhile_isBlank]
    rw [List.countP_cons, List.countP_cons, hasText_apply, behind, List.countP_cons] at counted
    have bare : hasText text? t = false := by
      refine Bool.eq_false_iff.mpr fun stands => ?_
      rw [if_pos stands] at counted
      omega
    have bare_delimiter : hasText text? delimiter = false := by
      refine Bool.eq_false_iff.mpr fun stands => ?_
      have sized_call := (hasText_apply sizing delimiter).trans stands
      exact apply_not_mem_lexemeKinds sizing stands (clear _ List.mem_cons_self sized_call).2
    have bare_sized := (hasText_apply sizing delimiter).trans bare_delimiter
    rw [inline_cons_of_none (hasText_eq_false.mp bare),
      absorbSizing_of_sized sized (dropWhile_inline found bare_delimiter),
      inline_cons_of_none (hasText_eq_false.mp bare_sized), ih]
    · intro u member
      have inside : u ∈ rest.dropWhile isBlank := found ▸ List.mem_cons_of_mem _ member
      exact ends u (List.mem_cons_of_mem _ ((List.dropWhile_suffix isBlank).subset inside))
    · rw [bare, bare_delimiter] at counted
      simpa using counted
    · exact (List.forall_mem_cons.mp clear).2

end TexFormula.Token
