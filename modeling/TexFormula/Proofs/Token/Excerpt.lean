import TexFormula.Proofs.Token.Collapse
import TexFormula.Proofs.Token.Respelling
import TexFormula.Token.Stream

/-! Excerpts. A line break in a source is a blank or the end of a comment, and no token keeps it. So
the tokens around an offending one are shown on one line, comments apart, and what is spelled in
front of the offending token is as long as the space in front of the carets. -/
namespace TexFormula.Token

variable {c : Char} {cs : List Char} {t : Token} {tokens : List Token}

/-! ### Tokens on one line -/

/-- A token without a line break. -/
structure OneLine (t : Token) : Prop where
  unbroken : '\n' ∉ t.value.toList

theorem oneLine_single {kind : TokenKind} (other : c ≠ '\n') : (single kind c).OneLine :=
  ⟨by simpa [single] using other.symm⟩

theorem oneLine_blank {kind : TokenKind} : OneLine { kind, value := " " } :=
  ⟨by simp⟩

/-- What is taken off a source by a property that a line break does not have has none. -/
theorem oneLine_takeWhile {kind : TokenKind} {p : Char → Bool} (other : c ≠ '\n')
    (stops : p '\n' = false) :
    OneLine { kind, value := String.ofList (c :: cs.takeWhile p) } := by
  refine ⟨fun member => ?_⟩
  rw [String.toList_ofList] at member
  rcases List.mem_cons.mp member with same | member
  · exact other same.symm
  · rw [kept_takeWhile p cs '\n' member] at stops
    cases stops

private theorem oneLine_ite {p : Prop} [Decidable p] {yes no : Token × List Char}
    (left : yes.1.OneLine) (right : no.1.OneLine) : (if p then yes else no).1.OneLine := by
  split <;> assumption

theorem oneLine_nextCommand (other : c ≠ '\n') (cs : List Char) : (nextCommand c cs).1.OneLine := by
  unfold nextCommand
  split <;> exact oneLine_takeWhile other (by decide +kernel)

theorem oneLine_nextEscaped (cs : List Char) : (nextEscaped cs).1.OneLine := by
  cases cs with
  | nil => exact oneLine_single (by decide)
  | cons c cs =>
    by_cases line : c = '\n'
    · rw [nextEscaped_of_isBlank (by rw [line]; decide)]
      exact oneLine_blank
    · have named := oneLine_nextCommand line cs
      unfold nextEscaped
      repeat' refine oneLine_ite ?_ ?_
      all_goals first
        | exact named
        | with_reducible exact oneLine_single line
        | exact oneLine_blank

theorem oneLine_nextPlaceholder (cs : List Char) : (nextPlaceholder cs).1.OneLine := by
  cases cs with
  | nil => exact oneLine_single (by decide)
  | cons c cs =>
    simp only [nextPlaceholder]
    split
    case isTrue digit =>
      refine oneLine_single ?_
      rintro rfl
      cases digit
    case isFalse => exact oneLine_single (by decide)

theorem oneLine_nextFrom (c : Char) (cs : List Char) : (nextFrom c cs).1.OneLine := by
  by_cases line : c = '\n'
  · rw [nextFrom_of_isBlank (by rw [line]; decide)]
    exact oneLine_blank
  · have comment : OneLine
        { kind := { comment := true }, value := String.ofList (cs.takeWhile (· != '\n')) } := by
      refine ⟨fun member => ?_⟩
      rw [String.toList_ofList] at member
      simpa using kept_takeWhile (· != '\n') cs '\n' member
    have stops : isNumberPart '\n' = false := by decide +kernel
    unfold nextFrom
    repeat' refine oneLine_ite ?_ ?_
    all_goals first
      | exact oneLine_nextEscaped cs
      | exact oneLine_nextPlaceholder cs
      | exact comment
      | with_reducible exact oneLine_single line
      | exact oneLine_takeWhile line stops
      | exact oneLine_blank

theorem oneLine_lex (source : String) : ∀ t ∈ lex source, t.OneLine := by
  unfold lex
  fun_induction lexChars source.toList with
  | case1 => simp
  | case2 c cs ih => exact List.forall_mem_cons.mpr ⟨oneLine_nextFrom c cs, ih⟩

theorem oneLine_apply (s : Sizing) (line : t.OneLine) : (s.apply t).OneLine := by
  unfold Sizing.apply
  split
  · exact ⟨by simp⟩
  · exact ⟨line.unbroken⟩

/-! ### Spellings on one line -/

theorem OneLine.spelling (line : t.OneLine) : '\n' ∉ t.spelling.toList := by
  have unbroken := line.unbroken
  unfold Token.spelling
  repeat' split
  all_goals simp [unbroken]

theorem oneLine_spellingAll (lines : ∀ t ∈ tokens, t.OneLine) :
    '\n' ∉ (spellingAll tokens).toList := by
  rw [toList_spellingAll, written, List.mem_flatMap]
  rintro ⟨t, member, inside⟩
  exact (lines t (List.mem_filter.mp member).1).spelling inside

/-- The name of an environment is on one line if its spelling is. -/
theorem oneLine_environmentDelimiter (opens : Bool) {name : List Char} (line : '\n' ∉ name) :
    (environmentDelimiter opens name).OneLine := by
  have among : ∀ c ∈ (environmentDelimiter opens name).value.toList, c ∈ name := by
    intro c member
    simp only [environmentDelimiter, Text.trim, Text.dropTrailing, String.toList_ofList] at member
    have inside := (List.dropWhile_suffix Text.isBlank).mem
      (List.mem_reverse.mp ((List.dropWhile_suffix Text.isBlank).mem (List.mem_reverse.mp member)))
    split at inside
    · exact List.dropLast_subset _ inside
    · exact inside
  exact ⟨fun member => line (among _ member)⟩

theorem oneLine_collapsed {out : List Token} (collapsed : Collapsed tokens out)
    (lines : ∀ t ∈ tokens, t.OneLine) : ∀ t ∈ out, t.OneLine :=
  forall_mem_collapsed collapsed (fun _ line => ⟨line.unbroken⟩)
    (fun opens _ lines => oneLine_environmentDelimiter opens (oneLine_spellingAll lines)) lines

/-! ### Excerpts -/

theorem spellingAll_append (front back : List Token) :
    spellingAll (front ++ back) = spellingAll front ++ spellingAll back := by
  rw [← String.toList_inj, String.toList_append]
  simp only [toList_spellingAll, written, List.filter_append, List.flatMap_append]

theorem spellingAll_cons (heard : t.kind.comment = false) (tokens : List Token) :
    spellingAll (t :: tokens) = t.spelling ++ spellingAll tokens := by
  rw [← String.toList_inj, String.toList_append, toList_spellingAll, written_cons heard,
    toList_spellingAll]

theorem spellingAll_map_unpaired (tokens : List Token) :
    spellingAll (tokens.map unpaired) = spellingAll tokens := by
  rw [spellingAll, List.filter_map, List.map_map]
  rfl

/-- An excerpt does not tell who the partners are. -/
theorem excerpt_map_unpaired (tokens : List Token) (position : Nat) :
    excerpt (tokens.map unpaired) position = excerpt tokens position := by
  unfold excerpt
  rw [List.getElem?_map]
  cases tokens[position]? with
  | none => rfl
  | some t =>
    simp only [Option.map_some, ← List.map_take, ← List.map_drop, spellingAll_map_unpaired]
    rfl

/-- What an excerpt shows around an offending token: the tokens in front of it and behind it, and
carets as long as its spelling below it. -/
theorem excerpt_eq {front back : List Token} (heard : t.kind.comment = false)
    (shown : t.spelling ≠ "") :
    excerpt (front ++ t :: back) front.length =
      let before := spellingAll (front.drop (front.length - excerptReach))
      let after := spellingAll (back.take (excerptReach - 1))
      "\n" ++ (before ++ t.spelling ++ after) ++ "\n" ++ "".pushn ' ' before.length
        ++ "".pushn '^' t.spelling.length ++ "HERE\n" := by
  have found : (front ++ t :: back)[front.length]? = some t := by
    rw [List.getElem?_append_right (Nat.le_refl _), Nat.sub_self]
    rfl
  have ahead : (front ++ t :: back).take front.length = front := List.take_left
  have window : ((front ++ t :: back).take (front.length + excerptReach)).drop
      (front.length - excerptReach) =
        front.drop (front.length - excerptReach) ++ t :: back.take (excerptReach - 1) := by
    rw [List.take_length_add_append, List.drop_append_of_le_length (Nat.sub_le _ _)]
    rfl
  have carets : max 1 t.spelling.length = t.spelling.length := by
    have some_char : t.spelling.length ≠ 0 := by simpa using shown
    omega
  unfold excerpt
  simp only [found, ahead, window, carets, spellingAll_append, spellingAll_cons heard,
    String.append_assoc]

end TexFormula.Token
