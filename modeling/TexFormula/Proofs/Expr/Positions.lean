import TexFormula.Expr.Queue

/-! Cutting a token list by positions. An expression is a stretch of the list between two positions,
and its content is a stretch of the expression. Wherever the partners of delimiters are said to be,
no position that is used lies outside the list it belongs to (`cut?_zero`, `content?_piece`). So
every list can be cut, and what comes out is the queue of its expressions. -/
namespace TexFormula.Queue

/-- The tokens from position `i` up to position `j`, if these are positions of the list. -/
def slice? (tokens : List Token) (i j : Nat) : Option (List Token) :=
  if i ≤ j ∧ j ≤ tokens.length then some ((tokens.drop i).take (j - i)) else none

theorem slice?_of_le {tokens : List Token} {i j : Nat} (ordered : i ≤ j)
    (inside : j ≤ tokens.length) : slice? tokens i j = some ((tokens.drop i).take (j - i)) :=
  if_pos ⟨ordered, inside⟩

/-- The shape and the tokens of an expression. -/
abbrev Piece := Expr.Kind × List Token

/-- The shape of the expression that starts with the token `t` at position `i`, and the position
behind it. -/
def extent (tokens : List Token) (t : Token) (i : Nat) : Expr.Kind × Nat :=
  let partner : Int := i + t.offset
  if t.isBlank then (.whitespace, i + 1)
  else if 0 < t.offset ∧ partner < tokens.length then
    match compositeKind? t with
    | some kind => (kind, partner.toNat + 1)
    | none => (.single, i + 1)
  else (.single, i + 1)

theorem lt_extent (tokens : List Token) (t : Token) (i : Nat) : i < (extent tokens t i).2 := by
  unfold extent
  simp only
  split
  · exact Nat.lt_succ_self i
  · split
    · split
      · simp only
        omega
      · exact Nat.lt_succ_self i
    · exact Nat.lt_succ_self i

/-- The expressions from position `i` on, as far as all positions that are used are in the list. -/
def cut? (tokens : List Token) (i : Nat) : Option (List Piece) :=
  if i < tokens.length then do
    let t ← tokens[i]?
    let behind := (extent tokens t i).2
    let here ← slice? tokens i behind
    let others ← cut? tokens behind
    return ((extent tokens t i).1, here) :: others
  else some []
termination_by tokens.length - i
decreasing_by
  have := lt_extent tokens t i
  omega

/-- What is between the delimiters of an expression. -/
def content? (p : Piece) : Option (List Token) :=
  match p.1 with
  | .single | .whitespace => some p.2
  | _ => if 2 ≤ p.2.length then slice? p.2 1 (p.2.length - 1) else some []

/-! ### Agreement with queues -/

/-- An expression with its shape and its tokens side by side. -/
def piece (e : Expr) : Piece :=
  (e.kind, e.tokens)

/-- The shape of the expression that a token starts, and the number of tokens that follow in it. -/
def reach (t : Token) (rest : List Token) : Expr.Kind × Nat :=
  if t.isBlank then (.whitespace, 0) else (composite? t rest).getD (.single, 0)

theorem ofTokens_cons (t : Token) (rest : List Token) :
    ofTokens (t :: rest) =
      ⟨(reach t rest).1, t, rest.take (reach t rest).2⟩ ::
        ofTokens (rest.drop (reach t rest).2) := by
  rw [ofTokens, reach]
  split
  · rfl
  · split
    case h_1 kind n composite => rw [composite]; rfl
    case h_2 composite => rw [composite]; rfl

/-- The extent of an expression in a list is its reach among the tokens behind its first one. -/
theorem extent_eq {tokens : List Token} {i : Nat} (inside : i < tokens.length) (t : Token) :
    extent tokens t i =
        ((reach t (tokens.drop (i + 1))).1, i + 1 + (reach t (tokens.drop (i + 1))).2) ∧
      (extent tokens t i).2 ≤ tokens.length := by
  have within : (0 < t.offset ∧ t.offset ≤ (tokens.drop (i + 1)).length) ↔
      0 < t.offset ∧ (i : Int) + t.offset < tokens.length := by
    rw [List.length_drop]
    omega
  unfold extent reach composite?
  simp only [within]
  by_cases blank : t.isBlank = true
  · simp only [blank, if_true]
    exact ⟨trivial, inside⟩
  · by_cases near : 0 < t.offset ∧ (i : Int) + t.offset < tokens.length
    · have position : ((i : Int) + t.offset).toNat + 1 = i + 1 + t.offset.toNat := by omega
      cases compositeKind? t with
      | none => simp only [blank, near]; exact ⟨rfl, inside⟩
      | some kind =>
        simp only [blank, near, position]
        exact ⟨rfl, by simp; omega⟩
    · simp only [blank, near]
      exact ⟨rfl, inside⟩

/-- Cutting from a position on uses no position outside the list, and gives the expressions of the
tokens from there on. -/
theorem cut?_eq (tokens : List Token) (i : Nat) :
    cut? tokens i = some ((ofTokens (tokens.drop i)).map piece) := by
  fun_induction cut? tokens i with
  | case1 i inside ih =>
    obtain ⟨reached, bounded⟩ := extent_eq inside tokens[i]
    have here : tokens[i]? = some tokens[i] := List.getElem?_eq_getElem inside
    have stretch := slice?_of_le (Nat.le_of_lt (lt_extent tokens tokens[i] i)) bounded
    have rest := ih tokens[i]
    simp only [here, Option.bind_eq_bind, Option.bind_some, stretch, rest]
    have length : i + 1 + (reach tokens[i] (tokens.drop (i + 1))).2 - i =
        (reach tokens[i] (tokens.drop (i + 1))).2 + 1 := by omega
    rw [reached, length, List.drop_eq_getElem_cons inside, ofTokens_cons, List.drop_drop]
    rfl
  | case2 i outside =>
    rw [List.drop_eq_nil_of_le (Nat.le_of_not_lt outside), ofTokens]
    rfl

/-- A list can be cut whatever its offsets are. -/
theorem cut?_zero (tokens : List Token) : cut? tokens 0 = some ((ofTokens tokens).map piece) :=
  cut?_eq tokens 0

/-- The content of an expression is inside the expression. -/
theorem content?_piece (e : Expr) : content? (piece e) = some e.inner := by
  obtain ⟨kind, first, rest⟩ := e
  have between : (if 2 ≤ (first :: rest).length then
      slice? (first :: rest) 1 ((first :: rest).length - 1) else some []) = some rest.dropLast := by
    split
    case isTrue long =>
      rw [slice?_of_le (by omega) (by omega), List.dropLast_eq_take]
      rfl
    case isFalse short =>
      rw [List.length_cons] at short
      rw [List.eq_nil_of_length_eq_zero (by omega : rest.length = 0)]
      rfl
  unfold content? Expr.inner
  cases kind <;> first | rfl | exact between

/-- An expression has a first token, and the tokens behind that are inside the expression. -/
theorem slice?_tokens (e : Expr) :
    e.tokens[0]? = some e.first ∧ slice? e.tokens 1 e.tokens.length = some e.rest := by
  have nonempty : 1 ≤ e.tokens.length := Nat.succ_le_succ (Nat.zero_le _)
  refine ⟨rfl, (slice?_of_le nonempty (Nat.le_refl _)).trans ?_⟩
  exact congrArg some (List.take_of_length_le (Nat.le_refl _))

end TexFormula.Queue
