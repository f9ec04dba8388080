import TexFormula.Plan.Command
import TexFormula.Proofs.Expr.Spans
import TexFormula.Proofs.Length.Numeral
import TexFormula.Proofs.Token.Settled

/-! A length behind a command. A length without blanks is read as letters, numbers and single
characters, so the tokens of a source that begins with it are put together again until the text is a
length. That is when the whole length is there and not before, since no proper prefix of a length is
a length (`Length.split?_prefix`), and what stands behind it is not looked at. -/
namespace TexFormula

/-! ### Tokens of a length -/

namespace Token

variable {c : Char} {cs : List Char} {t : Token} {tokens : List Token}

/-- The characters a length can have, and no others but letters. -/
def isLengthChar (c : Char) : Bool :=
  Text.isAlphabetic c || Text.isDecimalDigit c || Length.marks.contains c

/-- A token that a length is put together from. -/
structure LengthPart (t : Token) : Prop where
  kind : t.kind = { letter := true } ∨ t.kind = { number := true } ∨ t.kind = { char := true }
  offset : t.offset = 0
  text : t.value.toList ≠ []

/-- The characters of a length are read as tokens of a length. -/
theorem lengthPart_nextFrom (char : isLengthChar c = true) (cs : List Char) :
    (nextFrom c cs).1.LengthPart ∧
      (nextFrom c cs).1.value.toList ++ (nextFrom c cs).2 = c :: cs := by
  by_cases letter : Text.isAlphabetic c = true
  · have read : nextFrom c cs = (single { letter := true } c, cs) := by rw [nextFrom, if_pos letter]
    rw [read]
    exact ⟨⟨.inl rfl, rfl, by simp [single]⟩, by simp [single]⟩
  by_cases number : Text.isNumeric c = true
  · have read : nextFrom c cs =
        ({ kind := { number := true }, value := String.ofList (c :: cs.takeWhile isNumberPart) },
          cs.dropWhile isNumberPart) := by
      rw [nextFrom, if_neg letter, if_pos number]
    rw [read]
    exact ⟨⟨.inr (.inl rfl), rfl, by simp⟩, by simp [List.takeWhile_append_dropWhile]⟩
  have sign : c ∈ ['+', '-', '.'] := by
    simp only [isLengthChar, letter, Bool.false_or, Bool.or_eq_true] at char
    rcases char with digit | sign
    · exact absurd (Text.isNumeric_of_isDecimalDigit digit) number
    · exact List.contains_iff_mem.mp sign
  have read : nextFrom c cs = (single { char := true } c, cs) := by
    simp only [List.mem_cons, List.not_mem_nil, or_false] at sign
    obtain rfl | rfl | rfl := sign <;> rfl
  rw [read]
  exact ⟨⟨.inr (.inr rfl), rfl, by simp [single]⟩, by simp [single]⟩

theorem lengthPart_lexChars (chars : ∀ c ∈ cs, isLengthChar c = true) :
    (∀ t ∈ lexChars cs, t.LengthPart) ∧ (lexChars cs).flatMap (fun t => t.value.toList) = cs := by
  fun_induction lexChars cs with
  | case1 => exact ⟨by simp, rfl⟩
  | case2 c cs ih =>
    obtain ⟨part, whole⟩ := lengthPart_nextFrom (chars c List.mem_cons_self) cs
    obtain ⟨parts, rest⟩ := ih fun d member =>
      chars d (whole ▸ List.mem_append_right _ member)
    exact ⟨List.forall_mem_cons.mpr ⟨part, parts⟩, by rw [List.flatMap_cons, rest, whole]⟩

theorem LengthPart.settled (part : t.LengthPart) : t.Settled := by
  have command : t.kind.command = false := by
    rcases part.kind with kind | kind | kind <;> rw [kind]
  exact settled_iff.mpr (by simp [command, isCommand])

/-- A length is prepared into its tokens as they are read. -/
theorem eq_lex_of_tokenize {source : String} (done : tokenize source = .ok tokens)
    (parts : ∀ t ∈ lex source, t.LengthPart) : tokens = lex source := by
  have same : tokens.map unpaired = lex source := by
    rw [map_unpaired_of_prepare (fun t member => (parts t member).settled) done,
      map_unpaired_of_fresh (fresh_lex source)]
  have paired := paired_of_prepare (coherent_lex source) done
  have fresh : ∀ t ∈ tokens, t.Fresh := fun t member => by
    have read : t.unpaired ∈ lex source := same ▸ List.mem_map_of_mem member
    have plain : t.kind.opens = false ∧ t.kind.closes = false := by
      rcases (parts _ read).kind with kind | kind | kind <;> rw [kind_unpaired] at kind <;>
        simp [kind]
    exact ⟨coherent_lex source t.unpaired read, paired.alone t member plain.1 plain.2⟩
  exact (map_unpaired_of_fresh fresh).symm.trans same

theorem LengthPart.spelling (part : t.LengthPart) : spelling t = t.value := by
  rcases part.kind with kind | kind | kind <;> simp [Token.spelling, isBlank, kind]

theorem LengthPart.isBlank (part : t.LengthPart) : isBlank t = false := by
  rcases part.kind with kind | kind | kind <;> simp [Token.isBlank, kind]

/-- Two sources of which the tokens stay the same if one is written behind the other. -/
structure Juxtaposed (front back : String) (tokens others : List Token) : Prop where
  first : tokenize front = .ok tokens
  second : tokenize back = .ok others
  joined : tokenize (front ++ back) = .ok (tokens ++ others)

/-- A length is the tokens of its characters, written one after the other. -/
theorem lengthPart_tokenize {length : String} (solid : ∀ c ∈ length.toList, Text.isBlank c = false)
    (read : (Length.split? length).isSome) (done : tokenize length = .ok tokens) :
    (∀ t ∈ tokens, t.LengthPart) ∧ tokens.flatMap (fun t => t.value.toList) = length.toList := by
  obtain ⟨⟨n, unit⟩, read⟩ := Option.isSome_iff_exists.mp read
  obtain ⟨proper, member, spelled⟩ := Length.spelling_of_split? solid read
  obtain ⟨_, letters⟩ := Length.letters_unit member
  have chars : ∀ c ∈ length.toList, isLengthChar c = true := by
    intro c inside
    rw [spelled, String.toList_ofList, List.mem_append] at inside
    rcases inside with number | letter
    · rcases proper.char number with digit | sign
      · simp [isLengthChar, digit]
      · rw [isLengthChar, List.contains_iff_mem.mpr sign, Bool.or_true]
    · simp [isLengthChar, (Length.apart_of_isUnitLetter (letters c letter)).1]
  have parts := lengthPart_lexChars chars
  rw [eq_lex_of_tokenize done parts.1]
  exact parts

end Token

/-! ### Taking a length -/

namespace Queue

variable {tokens others : List Token} {t : Token}

/-- Each token of a length is an expression of its own. -/
theorem ofTokens_lengthParts (parts : ∀ t ∈ tokens, t.LengthPart) :
    ofTokens (tokens ++ others) = tokens.map (fun t => ⟨.single, t, []⟩) ++ ofTokens others := by
  induction tokens with
  | nil => rfl
  | cons t rest ih =>
    obtain ⟨part, later⟩ := List.forall_mem_cons.mp parts
    rw [List.cons_append, ofTokens_alone part.isBlank part.offset, ih later, List.map_cons,
      List.cons_append]

/-- A token of a length is taken as an argument. -/
theorem Below.takeArgument_lengthPart {bound rest : Queue} (part : t.LengthPart)
    {q : Queue.Below bound} (queue : q.val = ⟨.single, t, []⟩ :: rest) :
    ∃ e behind, q.takeArgument = (some e, behind) ∧ e.val = ⟨.single, t, []⟩ ∧
      behind.val = rest := by
  have going : Expr.isBreak ⟨.single, t, []⟩ = false := by
    rcases part.kind with kind | kind | kind <;>
      simp [Expr.isBreak, Token.isCellBreak, Token.isRowBreak, Token.isNamed, kind]
  have peeked : q.val.peekArgument? = some ⟨.single, t, []⟩ := by rw [queue]; rfl
  have taken : q.takeArgument = q.popArgument := by simp [takeArgument, peeked, going]
  have popped : q.val.popArgument = (some ⟨.single, t, []⟩, rest) := by rw [queue]; rfl
  have first : q.popArgument.1.map Subtype.val = some ⟨.single, t, []⟩ :=
    (fst_split _ _ _).trans (congrArg Prod.fst popped)
  have left : q.popArgument.2.val = rest := (snd_split _ _ _).trans (congrArg Prod.snd popped)
  obtain ⟨e, one, same⟩ := Option.map_eq_some_iff.mp first
  exact ⟨e, q.popArgument.2, by rw [taken, ← one], same, left⟩

end Queue

namespace Plan

variable {tokens : List Token} {q : Queue}

/-- A length is extended until it is complete, and no further. -/
theorem extendLength_complete {text : List Char} (parts : ∀ t ∈ tokens, t.LengthPart)
    (solid : ∀ c ∈ text ++ tokens.flatMap (fun t => t.value.toList), Text.isBlank c = false)
    (length : (Length.parse? (String.ofList
      (text ++ tokens.flatMap fun t => t.value.toList))).isSome) :
    extendLength (String.ofList text) (tokens.map (fun t => ⟨.single, t, []⟩) ++ q) =
      (String.ofList (text ++ tokens.flatMap fun t => t.value.toList), q) := by
  induction tokens generalizing text with
  | nil =>
    simp only [List.flatMap_nil, List.append_nil] at length ⊢
    cases q with
    | nil => rfl
    | cons e rest => exact if_pos length
  | cons t rest ih =>
    obtain ⟨part, later⟩ := List.forall_mem_cons.mp parts
    rw [List.flatMap_cons] at solid length ⊢
    have more : t.value.toList ++ rest.flatMap (fun t => t.value.toList) ≠ [] :=
      List.append_ne_nil_of_left_ne_nil part.text _
    have incomplete : Length.parse? (String.ofList text) = none :=
      Length.parse?_eq_none
        (Length.split?_prefix solid (Length.isSome_split?_of_parse? length) more)
    have char : (t.kind.letter || t.kind.number || t.kind.char) = true := by
      rcases part.kind with kind | kind | kind <;> rw [kind] <;> rfl
    have text' : String.ofList text ++ t.value = String.ofList (text ++ t.value.toList) := by
      rw [String.ofList_append, String.ofList_toList]
    rw [← List.append_assoc] at solid length ⊢
    rw [List.map_cons, List.cons_append, extendLength, incomplete, ← ih later solid length, ← text']
    simp [char]

/-- What is taken behind a command is the length that the queue begins with, and all of it. -/
theorem takeLength_lengthParts {length : String} {others : List Token} {bound : Queue}
    {q : Queue.Below bound} (parts : ∀ t ∈ tokens, t.LengthPart)
    (text : tokens.flatMap (fun t => t.value.toList) = length.toList)
    (solid : ∀ c ∈ length.toList, Text.isBlank c = false)
    (read : (Length.parse? length).isSome) (queue : q.val = Queue.ofTokens (tokens ++ others)) :
    (takeLength q).1 = some length ∧ (takeLength q).2.val = Queue.ofTokens others := by
  rw [Queue.ofTokens_lengthParts parts] at queue
  cases tokens with
  | nil =>
    obtain rfl : length = "" := String.toList_eq_nil_iff.mp text.symm
    cases read
  | cons t rest =>
    obtain ⟨part, later⟩ := List.forall_mem_cons.mp parts
    rw [List.map_cons, List.cons_append] at queue
    obtain ⟨e, behind, taken, single, left⟩ := Queue.Below.takeArgument_lengthPart part queue
    have spelled : Token.spellingAll e.val.tokens = String.ofList t.value.toList := by
      have heard : t.kind.comment = false := by
        rcases part.kind with kind | kind | kind <;> rw [kind]
      rw [single, Expr.tokens, ← String.toList_inj, Token.toList_spellingAll,
        Token.written_cons heard, part.spelling, String.toList_ofList]
      exact List.append_nil _
    have split : t.value.toList ++ rest.flatMap (fun t => t.value.toList) = length.toList := by
      rw [← text, List.flatMap_cons]
    have whole : String.ofList (t.value.toList ++ rest.flatMap fun t => t.value.toList) =
        length := by rw [split, String.ofList_toList]
    rw [← split] at solid
    have extended := extendLength_complete (q := Queue.ofTokens others) later solid
      (by rw [whole]; exact read)
    have alone : e.val.kind ≠ .group := by simp [single]
    simp only [takeLength, taken, alone, if_false, spelled, left, extended, whole, and_self]

theorem named_kern {name : String} (kern : name = "kern" ∨ name = "mkern") :
    Command.fixed? name = none ∧ Command.named name = .kern := by
  unfold Command.named
  rcases kern with rfl | rfl <;> exact ⟨rfl, rfl⟩

/-- A length behind `\kern` or `\mkern` is taken as it is written, whatever stands behind it: the
command makes a space of that length, and the expressions of what follows are left. -/
theorem command_kern_juxtaposed {length back width : String} {tokens others : List Token}
    (solid : ∀ c ∈ length.toList, Text.isBlank c = false)
    (read : Length.parse? length = some width)
    (apart : Token.Juxtaposed length back tokens others) {bound : Queue} (q : Queue.Below bound)
    (queue : q.val = Queue.ofTokens (tokens ++ others)) :
    (takeLength q).1 = some length ∧ (takeLength q).2.val = Queue.ofTokens others ∧
      ∀ (o : Options) (macros : Macro.Table) (t : Token) (c : Context),
        t.value = "kern" ∨ t.value = "mkern" →
        (macros.get? t.value).filter (·.inFormula) = none →
        ∃ rest, command o macros t c q =
            (.node (((Node.element "mspace").setAttribute "width" width).finish t c), rest) ∧
          rest.val = Queue.ofTokens others := by
  have some_width : (Length.parse? length).isSome := by rw [read]; rfl
  obtain ⟨parts, text⟩ :=
    Token.lengthPart_tokenize solid (Length.isSome_split?_of_parse? some_width) apart.first
  obtain ⟨taken, left⟩ := takeLength_lengthParts parts text solid some_width queue
  refine ⟨taken, left, fun o macros t c name free => ⟨(takeLength q).2, ?_, left⟩⟩
  obtain ⟨fixed, meaning⟩ := named_kern name
  have space : Node.space t.value length = (Node.element "mspace").setAttribute "width" width := by
    rw [Node.space, read]
  have made : kern t.value q = (Node.space t.value length, (takeLength q).2) := by
    unfold kern
    cases found : takeLength q with
    | mk first behind =>
      rw [found] at taken
      obtain rfl : first = some length := taken
      rfl
  simp only [command, fixed, free, meaning, perform, made, space]
  rfl

/-- In front of letters and digits that would be a length with the unit alone. -/
theorem command_kern_juxtaposed_em :
    ∃ tokens others, Token.Juxtaposed "-.5em" "em2" tokens others ∧
      ∃ (bound : Queue) (q : Queue.Below bound), q.val = Queue.ofTokens (tokens ++ others) ∧
        (takeLength q).1 = some "-.5em" ∧ (takeLength q).2.val = Queue.ofTokens others ∧
        ∃ rest, command {} {} ⟨{ command := true }, "mkern", 0⟩ {} q =
            (.node (((Node.element "mspace").setAttribute "width" "-.5em").finish
              ⟨{ command := true }, "mkern", 0⟩ {}), rest) ∧
          rest.val = Queue.ofTokens others := by
  let sign : Token := ⟨{ char := true }, "-", 0⟩
  let point : Token := ⟨{ char := true }, ".", 0⟩
  let five : Token := ⟨{ number := true }, "5", 0⟩
  let e : Token := ⟨{ letter := true }, "e", 0⟩
  let m : Token := ⟨{ letter := true }, "m", 0⟩
  let two : Token := ⟨{ number := true }, "2", 0⟩
  let tokens := [sign, point, five, e, m]
  let others := [e, m, two]
  have apart : Token.Juxtaposed "-.5em" "em2" tokens others := ⟨by cbv, by cbv, by cbv⟩
  let bound : Queue := ⟨.single, sign, []⟩ :: Queue.ofTokens (tokens ++ others)
  let q : Queue.Below bound := ⟨Queue.ofTokens (tokens ++ others), Queue.weight_lt_cons _ _⟩
  have none : "-.5em".toList.any Text.isBlank = false := rfl
  have solid : ∀ c ∈ "-.5em".toList, Text.isBlank c = false :=
    fun c member => Bool.eq_false_iff.mpr (List.any_eq_false.mp none c member)
  have read : Length.parse? "-.5em" = some "-.5em" := by rfl
  obtain ⟨taken, left, made⟩ := command_kern_juxtaposed solid read apart q rfl
  exact ⟨tokens, others, apart, bound, q, rfl, taken, left, made {} {} _ {} (.inr rfl) rfl⟩

end Plan

end TexFormula
